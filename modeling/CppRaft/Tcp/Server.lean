import CppRaft.Server.Inversion
import CppRaft.Server.Timer
import CppRaft.Tcp.Join

/-!
# The TCP server

`raft::tcp::Server` on top of `RaftServer`: the leader pointer, the overridden
`become_leader` and `become_candidate`, and the parts of its handlers that run under
the exclusive lock. A node is named by its key. Following a pointer whose node is
not in the table has no defined result.
-/

namespace CppRaft

/-- `RemoveNode1` on a table whose nodes are named by their keys. -/
def NodeTable.removeNode {Node : Type} [DecidableEq Node] (table : NodeTable Node) (node : Node) :
    NodeTable Node where
  nodes := table.nodes.filter fun other => decide (other ≠ node)
  distinct := table.distinct.filter _
  record := table.record

namespace Tcp

open Machine

/-- `raft::internal2`. -/
inductive InternalRequest where
  | removeNode
  | becomeLeader
  deriving DecidableEq

/-- The requests from a node that `handleReceiveFromNodeLocked` treats. -/
inductive LockedRequest where
  | newNode (nodeKey : NodeIdentifierKey)
  | removeNode (nodeKey : NodeIdentifierKey)
  | oldLeaderDied
  deriving DecidableEq

/-- What a call does outside the server: the actions of `RaftServer`, and `AddInternalForWorker`. -/
inductive Output where
  | raft (action : Action NodeIdentifierKey)
  | addInternalForWorker (request : InternalRequest)
  deriving DecidableEq

/-- `raft::tcp::Server`, with `m_isAbleToVote` of its nodes. -/
structure Server where
  raft : RaftServer NodeIdentifierKey
  leaderNode : Option NodeIdentifierKey
  isAbleToVote : NodeIdentifierKey → Bool

/-- What `CheckAllPossibleSeeds` finds: a cluster whose adder sent these keys, or nothing. -/
inductive Found where
  | cluster (keys : List NodeIdentifierKey) (leaderIndex : Int)
  | nothing
  deriving DecidableEq

/-- The members after `CheckAllPossibleSeeds`. -/
def Found.members (own : NodeIdentifierKey) : Found → Members
  | cluster keys leaderIndex => addOwnNode false own (addReceived leaderIndex 0 keys unjoined)
  | nothing => addOwnNode true own unjoined

/-- The role after `CheckAllPossibleSeeds`. -/
def Found.state (own : NodeIdentifierKey) (found : Found) : RaftState :=
  match found with
  | cluster _ _ => if (found.members own).leaderNode.isSome then .follower else .candidate
  | nothing => .leader

/-- The periods that are set before `FindClusterAndInit`, as the constructors leave them, and the
value that a product beyond the largest `int` gets, which the language leaves open. -/
structure Timing where
  periodForPeriodic : Int := 2000
  requestTimeout : Int := 200
  electionTimeout : Int := 20000
  overflow : Int := 0

/-- `m_nPeriodForPeriodic` from `FindClusterAndInit` on. -/
def Timing.period (timing : Timing) : Int :=
  if timing.periodForPeriodic < 5 then 2000 else timing.periodForPeriodic

/-- `request_timeout` from `FindClusterAndInit` on. -/
def Timing.request (timing : Timing) : Int :=
  if timing.requestTimeout < timing.period then timing.period else timing.requestTimeout

/-- `TIMEOUTS_RATIO_MIN * request_timeout`, an `int`. -/
def Timing.ratio (timing : Timing) : Int :=
  if 11 * timing.request < 2 ^ 31 then 11 * timing.request else timing.overflow

/-- `election_timeout` from `FindClusterAndInit` on. -/
def Timing.election (timing : Timing) : Int :=
  if timing.electionTimeout < timing.ratio then timing.ratio else timing.electionTimeout

/-- The period is positive: `FindClusterAndInit` replaces one below five by the default. -/
theorem Timing.period_pos (timing : Timing) : 0 < timing.period := by
  unfold period
  split <;> omega

/-- The request timeout is at least one period. -/
theorem Timing.period_le_request (timing : Timing) : timing.period ≤ timing.request := by
  unfold request
  split <;> omega

/-- `election_timeout` is at least eleven times `request_timeout`, if that is an `int`. -/
theorem Timing.request_le_election (timing : Timing) (fits : 11 * timing.request < 2 ^ 31) :
    11 * timing.request ≤ timing.election := by
  unfold election ratio
  rw [if_pos fits]
  split <;> omega

/-- A server with the constructors' periods, after a voter has elected it. -/
def electedWithDefaults {Node : Type} [DecidableEq Node] (config : Config Node) (voter : Node) :
    RaftServer Node :=
  stateOf (RaftServer.machine Node)
    { RaftServer.init config with
      electionTimeout := Timing.election {}, requestTimeout := Timing.request {} }
    (RaftServer.candidacy 22000 (0, 0) ⟨0, 1⟩ [voter])

/-- `FindClusterAndInit` on a constructed server. -/
def findClusterAndInit (own : NodeIdentifierKey) (timing : Timing) (found : Found) : Server where
  raft :=
    { (RaftServer.new : RaftServer NodeIdentifierKey) with
      state := found.state own
      table := (found.members own).table
      thisNode := (found.members own).thisNode
      requestTimeout := timing.request
      electionTimeout := timing.election
      callbacks := ⟨true, true⟩ }
  leaderNode := (found.members own).leaderNode
  isAbleToVote := fun _ => true

namespace Server

/-- The members of a server. -/
def members (s : Server) : Members :=
  ⟨s.raft.table, s.leaderNode, s.raft.thisNode⟩

/-- A call of a `RaftServer` method. -/
def inside {α : Type} (s : Server)
    (call : Outcome (RaftServer NodeIdentifierKey) (Action NodeIdentifierKey) α) :
    Outcome Server Output α :=
  ⟨call.exit, { s with raft := call.state }, call.emitted.map .raft⟩

/-- Follow a pointer to a node. -/
def follow (pointer : Option NodeIdentifierKey) (s : Server) :
    Outcome Server Output NodeIdentifierKey :=
  match pointer with
  | some node =>
      if node ∈ s.raft.table.nodes then ⟨.returned node, s, []⟩ else ⟨.undefined, s, []⟩
  | none => ⟨.undefined, s, []⟩

/-- `AddNode`; `false` for the `NULL` it returns. -/
def addNode (nodeKey : NodeIdentifierKey) (s : Server) : Outcome Server Output Bool :=
  match s.raft.table.addNode? nodeKey with
  | none => ⟨.returned false, s, []⟩
  | some table =>
      ⟨.returned true,
        { s with
          raft := { s.raft with table := table }
          isAbleToVote := Function.update s.isAbleToVote nodeKey true },
        []⟩

/-- `RemoveNode1`. -/
def removeNode1 (nodeKey : NodeIdentifierKey) (s : Server) : Server :=
  { s with raft := { s.raft with table := s.raft.table.removeNode nodeKey } }

/-- Point `m_pLeaderNode` to a node and flag it. -/
def setLeader (node : NodeIdentifierKey) (s : Server) : Server :=
  { s with
    raft := { s.raft with table := s.raft.table.makeLeader node }
    leaderNode := some node }

/-- Set `m_isAbleToVote` of a node. -/
def setAbleToVote (node : NodeIdentifierKey) (able : Bool) (s : Server) : Server :=
  { s with isAbleToVote := Function.update s.isAbleToVote node able }

/-- `AddInternalForWorker`. -/
def addInternalForWorker (request : InternalRequest) (s : Server) : Outcome Server Output Unit :=
  ⟨.returned (), s, [.addInternalForWorker request]⟩

/-- `become_leader`. -/
def becomeLeader (s : Server) : Outcome Server Output Unit :=
  if s.leaderNode.isSome then s.addInternalForWorker .becomeLeader
  else s.inside ((RaftServer.becomeLeader s.raft).returning ())

/-- The head of `become_candidate`: the leader is not counted on any more. -/
def disqualifyLeader (s : Server) : Outcome Server Output Unit :=
  match s.leaderNode with
  | none => (Effect.done s).returning ()
  | some leader =>
      (s.follow (some leader)).bind fun leader s =>
        (Effect.done (s.setAbleToVote leader false)).returning ()

/-- `become_candidate`. -/
def becomeCandidate (rand : ℕ × ℕ) (s : Server) : Outcome Server Output Unit :=
  s.disqualifyLeader.bind fun _ s =>
    let nNodesWillVote := (s.raft.table.nodes.filter s.isAbleToVote).length
    (s.inside ((RaftServer.becomeCandidate rand s.raft).returning ())).bind fun _ s =>
      if nNodesWillVote < 2 then s.addInternalForWorker .becomeLeader
      else (Effect.done s).returning ()

/-- `recv_requestvote_response`. -/
def recvRequestvoteResponse (node : NodeIdentifierKey) (r : MsgRequestvoteResponse) (s : Server) :
    Outcome Server Output Int :=
  if s.raft.state = .leader then (Effect.done s).returning 0
  else if r.voteGranted = 1 then
    let s := { s with raft := s.raft.setVotesForMe node 1 }
    if RaftServer.raftVotesIsMajority (s.raft.table.count - 1) s.raft.getNvotesForMe then
      s.becomeLeader.bind fun _ s => (Effect.done s).returning 0
    else (Effect.done s).returning 0
  else (Effect.done { s with raft := s.raft.setVotesForMe node 0 }).returning 0

/-- The timer part of `periodic`. -/
def advanceTimer (msec : Int) (rand : ℕ × ℕ) (s : Server) : Outcome Server Output Unit :=
  let s := { s with raft := { s.raft with timeoutElapsed := s.raft.timeoutElapsed + msec } }
  if s.raft.state = .leader then
    if s.raft.requestTimeout ≤ s.raft.timeoutElapsed then
      (s.inside ((RaftServer.sendAppendentriesAll s.raft).returning ())).bind fun _ s =>
        (Effect.done { s with raft := { s.raft with timeoutElapsed := 0 } }).returning ()
    else (Effect.done s).returning ()
  else if s.raft.electionTimeout ≤ s.raft.timeoutElapsed then becomeCandidate rand s
  else (Effect.done s).returning ()

/-- `periodic`. -/
def periodic (msec : Int) (rand : ℕ × ℕ) (s : Server) : Outcome Server Output Int :=
  if s.raft.hasPendingEntry then
    (s.inside (RaftServer.applyEntry s.raft)).bind fun result s =>
      if result = 0 then (Effect.done s).returning 0
      else (advanceTimer msec rand s).bind fun _ s => (Effect.done s).returning 1
  else (advanceTimer msec rand s).bind fun _ s => (Effect.done s).returning 1

/-- The handlers of `RaftServer`, with the overridden methods. -/
def handle (event : Event NodeIdentifierKey) (s : Server) : Outcome Server Output Int :=
  match event with
  | .recvRequestvoteResponse node r _ => recvRequestvoteResponse node r s
  | .periodic msec rand => periodic msec rand s
  | event => s.inside (RaftServer.handle event s.raft)

/-- `handleNewConnectionLocked` for a `newNode` request. -/
def handleNewConnectionLocked (nodeKey : NodeIdentifierKey) (s : Server) :
    Outcome Server Output Bool :=
  s.addNode nodeKey

/-- `handleReceiveFromNodeLocked`. -/
def handleReceiveFromNodeLocked (request : LockedRequest) (sender : NodeIdentifierKey)
    (s : Server) : Outcome Server Output Bool :=
  match request with
  | .newNode nodeKey => s.addNode nodeKey
  | .removeNode nodeKey => (Effect.done (s.removeNode1 nodeKey)).returning true
  | .oldLeaderDied =>
      match s.leaderNode with
      | none => (Effect.done s).returning false
      | some leader =>
          (s.follow (some leader)).bind fun leader s =>
            ((s.removeNode1 leader).follow (some sender)).bind fun sender s =>
              (Effect.done (s.setLeader sender)).returning true

/-- `handleInternalLocked`. -/
def handleInternalLocked (request : InternalRequest) (node : Option NodeIdentifierKey)
    (s : Server) : Outcome Server Output Bool :=
  match request with
  | .removeNode =>
      if s.raft.state = .leader then
        (s.follow node).bind fun node s => (Effect.done (s.removeNode1 node)).returning true
      else (Effect.done s).returning false
  | .becomeLeader =>
      if s.raft.state = .candidate then
        (s.follow s.raft.thisNode).bind fun own s =>
          let pNode := s.leaderNode
          let s := s.setLeader own
          (s.inside ((RaftServer.becomeLeader s.raft).returning ())).bind fun _ s =>
            (s.follow pNode).bind fun old s => (Effect.done (s.removeNode1 old)).returning true
      else (Effect.done s).returning false

/-- A step of a server: one of the locked parts, one of the handlers of `RaftServer`, or a change
of `m_isAbleToVote` when a node answers or is found silent. -/
inductive Call where
  | newConnection (nodeKey : NodeIdentifierKey)
  | receive (request : LockedRequest) (sender : NodeIdentifierKey)
  | internal (request : InternalRequest) (node : Option NodeIdentifierKey)
  | ableToVote (node : NodeIdentifierKey) (able : Bool)
  | raft (event : Event NodeIdentifierKey)

/-- The server as a machine. -/
def machine : Machine Server Call Output where
  step := fun s call =>
    match call with
    | .newConnection nodeKey => (s.handleNewConnectionLocked nodeKey).effect?
    | .receive request sender => (s.handleReceiveFromNodeLocked request sender).effect?
    | .internal request node => (s.handleInternalLocked request node).effect?
    | .ableToVote node able => some (.done (s.setAbleToVote node able))
    | .raft event => (s.handle event).effect?

/-- One call of a run. -/
abbrev Step : Type :=
  Transition Server Call Output

/-- A run of a server that has completed `FindClusterAndInit`. -/
abbrev RunFrom (own : NodeIdentifierKey) (timing : Timing) (found : Found) (trace : List Step)
    (s : Server) : Prop :=
  machine.Run (findClusterAndInit own timing found) trace s

/-- Following a pointer changes nothing. -/
theorem follow_state (pointer : Option NodeIdentifierKey) (s : Server) :
    (s.follow pointer).state = s := by
  cases pointer with
  | none => rfl
  | some node =>
      unfold follow
      simp only
      split <;> rfl

/-- A call through a pointer only has a result if the pointer is set and its node is still
in the table. -/
theorem follow_bind_effect? {α : Type} {pointer : Option NodeIdentifierKey} {s : Server}
    {next : NodeIdentifierKey → Server → Outcome Server Output α} {effect : Effect Server Output}
    (defined : ((s.follow pointer).bind next).effect? = some effect) :
    ∃ node, pointer = some node ∧ node ∈ s.raft.table.nodes ∧
      (next node s).effect? = some effect := by
  cases pointer with
  | none => cases defined
  | some node =>
      by_cases listed : node ∈ s.raft.table.nodes
      · rw [follow, if_pos listed] at defined
        exact ⟨node, rfl, listed, defined⟩
      · rw [follow, if_neg listed] at defined
        cases defined

/-- A call of the Raft core has the effect of the core on the state, with its actions passed
on. -/
theorem inside_effect? {α : Type} {s : Server}
    {call : Outcome (RaftServer NodeIdentifierKey) (Action NodeIdentifierKey) α}
    {effect : Effect Server Output} (defined : (s.inside call).effect? = some effect) :
    ∃ inner, call.effect? = some inner ∧ effect.state = { s with raft := inner.state } := by
  rw [Outcome.effect?_eq_some_iff] at defined
  obtain ⟨notUndefined, notDiverged, rfl⟩ := defined
  exact ⟨_, (Outcome.effect?_eq_some_iff _ _).mpr ⟨notUndefined, notDiverged, rfl⟩, rfl⟩

/-- A call that returns has its state and emissions as effect. -/
theorem eq_of_returned {α : Type} {value : α} {s : Server} {emitted : List Output}
    {effect : Effect Server Output}
    (defined : (⟨.returned value, s, emitted⟩ : Outcome Server Output α).effect? = some effect) :
    effect = ⟨s, emitted⟩ :=
  (Option.some.inj defined).symm

end Server

end Tcp

end CppRaft
