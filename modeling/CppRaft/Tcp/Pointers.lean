import CppRaft.Tcp.Server

/-!
# The pointers to the own node and to the leader

In every run of a TCP server the own node and the leader are in the node table and the
leader is the one flagged node, as long as nothing removes one of the two: no removal
names them, and no election or announcement of one is served while the server still
takes itself for the leader. A leader that steps down keeps its leader pointer, so the
next election makes it remove itself.
-/

namespace CppRaft

namespace Tcp

open Machine

/-- The leader pointer is null or in the table, and a node of the table is flagged exactly when it
is the leader. -/
structure Members.LeaderValid (m : Members) : Prop where
  leaderListed : ∀ node, m.leaderNode = some node → node ∈ m.table.nodes
  flagged : ∀ node ∈ m.table.nodes,
    (m.table.record node).isLeader = true ↔ m.leaderNode = some node

/-- The own node is in the table, and the leader pointer is valid. -/
structure Members.Valid (m : Members) : Prop extends LeaderValid m where
  thisListed : ∃ node ∈ m.table.nodes, m.thisNode = some node

/-- The nodes with their flags and the two pointers agree. -/
structure Members.Same (m m' : Members) : Prop where
  nodes : m'.table.nodes = m.table.nodes
  flagged : ∀ node, (m'.table.record node).isLeader = (m.table.record node).isLeader
  leaderNode : m'.leaderNode = m.leaderNode
  thisNode : m'.thisNode = m.thisNode

namespace Members

variable {m m' m'' : Members} {node leader : NodeIdentifierKey}

theorem Same.refl (m : Members) : Same m m :=
  ⟨rfl, fun _ => rfl, rfl, rfl⟩

theorem Same.trans (first : Same m m') (second : Same m' m'') : Same m m'' :=
  ⟨second.nodes.trans first.nodes, fun node => (second.flagged node).trans (first.flagged node),
    second.leaderNode.trans first.leaderNode, second.thisNode.trans first.thisNode⟩

theorem Same.symm (same : Same m m') : Same m' m :=
  ⟨same.nodes.symm, fun node => (same.flagged node).symm, same.leaderNode.symm,
    same.thisNode.symm⟩

/-- Validity only depends on the nodes, the leader flags and the two pointers, so members
that have these in common are valid together. -/
theorem Same.valid (same : Same m m') (valid : m.Valid) : m'.Valid := by
  refine ⟨⟨?_, ?_⟩, ?_⟩
  · rw [same.nodes, same.leaderNode]
    exact valid.leaderListed
  · intro node listed
    rw [same.nodes] at listed
    rw [same.flagged, same.leaderNode]
    exact valid.flagged node listed
  · rw [same.nodes, same.thisNode]
    exact valid.thisListed

theorem Same.valid_iff (same : Same m m') : m'.Valid ↔ m.Valid :=
  ⟨same.symm.valid, same.valid⟩

/-- Adding a node leaves the leader pointer valid: the leader stays in the table, and the
new record has no leader flag. -/
theorem LeaderValid.addNode? (valid : m.LeaderValid) {table : NodeTable NodeIdentifierKey}
    (added : m.table.addNode? node = some table) (thisNode : Option NodeIdentifierKey) :
    LeaderValid ⟨table, m.leaderNode, thisNode⟩ := by
  unfold NodeTable.addNode? at added
  split at added
  · rename_i fresh
    cases added
    refine ⟨fun other leads => List.mem_append_left _ (valid.leaderListed other leads), ?_⟩
    intro other listed
    rcases List.mem_append.mp listed with old | new
    · have different : other ≠ node := fun same => fresh (same ▸ old)
      simp only [Function.update_of_ne different]
      exact valid.flagged other old
    · obtain rfl := List.mem_singleton.mp new
      simp only [Function.update_self, Bool.false_eq_true, false_iff]
      exact fun leads => fresh (valid.leaderListed other leads)
  · cases added

/-- `AddNode` puts the new node at the end of the list. -/
theorem nodes_addNode? {Node : Type} [DecidableEq Node] {table table' : NodeTable Node}
    {node : Node} (added : table.addNode? node = some table') :
    table'.nodes = table.nodes ++ [node] := by
  unfold NodeTable.addNode? at added
  split at added
  · cases added
    rfl
  · cases added

/-- `AddNode` fails exactly on a key that is in the table. -/
theorem addNode?_eq_none_iff {Node : Type} [DecidableEq Node] {table : NodeTable Node}
    {node : Node} : table.addNode? node = none ↔ node ∈ table.nodes := by
  rw [NodeTable.addNode?, dite_eq_right_iff]
  constructor
  · intro rejected
    by_contra fresh
    cases rejected fresh
  · exact fun listed fresh => absurd listed fresh

/-- Adding a node keeps both pointers valid. -/
theorem Valid.addNode? (valid : m.Valid) {table : NodeTable NodeIdentifierKey}
    (added : m.table.addNode? node = some table) : Valid { m with table := table } := by
  obtain ⟨own, listed, this⟩ := valid.thisListed
  refine ⟨valid.toLeaderValid.addNode? added m.thisNode, own, ?_, this⟩
  rw [nodes_addNode? added]
  exact List.mem_append_left _ listed

/-- Removing a node removes that node and no other. -/
theorem mem_removeNode {Node : Type} [DecidableEq Node] {table : NodeTable Node}
    {node other : Node} :
    other ∈ (table.removeNode node).nodes ↔ other ∈ table.nodes ∧ other ≠ node := by
  rw [NodeTable.removeNode, List.mem_filter, decide_eq_true_iff]

/-- Removing a node leaves the pointers valid unless it is the own node or the leader:
`RemoveNode1` does not reset them. -/
theorem Valid.removeNode_iff (valid : m.Valid) :
    Valid { m with table := m.table.removeNode node } ↔
      m.thisNode ≠ some node ∧ m.leaderNode ≠ some node := by
  constructor
  · intro kept
    constructor
    · intro own
      obtain ⟨this, listed, same⟩ := kept.thisListed
      exact (mem_removeNode.mp listed).2 (Option.some.inj (same.symm.trans own))
    · intro leads
      exact (mem_removeNode.mp (kept.leaderListed node leads)).2 rfl
  · rintro ⟨notOwn, notLeader⟩
    obtain ⟨own, listed, this⟩ := valid.thisListed
    refine ⟨⟨?_, ?_⟩, own, mem_removeNode.mpr ⟨listed, fun same => notOwn (same ▸ this)⟩, this⟩
    · intro other leads
      exact mem_removeNode.mpr
        ⟨valid.leaderListed other leads, fun same => notLeader (same ▸ leads)⟩
    · intro other listed
      exact valid.flagged other (mem_removeNode.mp listed).1

/-- `makeLeader` sets one flag; it clears none, so the flag of a former leader has to be
gone already. -/
theorem isLeader_makeLeader {Node : Type} [DecidableEq Node] (table : NodeTable Node)
    (node other : Node) :
    ((table.makeLeader node).record other).isLeader = true ↔
      other = node ∨ (table.record other).isLeader = true := by
  by_cases same : other = node
  · subst same
    simp [NodeTable.makeLeader, NodeTable.update]
  · simp [NodeTable.makeLeader, NodeTable.update, same]

/-- Appointing a listed node gives a valid leader pointer, if there was no leader: an
earlier one would keep its flag. -/
theorem LeaderValid.setLeader (valid : m.LeaderValid) (leaderless : m.leaderNode = none)
    (listed : node ∈ m.table.nodes) (thisNode : Option NodeIdentifierKey) :
    LeaderValid ⟨m.table.makeLeader node, some node, thisNode⟩ := by
  refine ⟨?_, ?_⟩
  · rintro _ ⟨⟩
    exact listed
  · intro other old
    have unflagged : ¬(m.table.record other).isLeader = true := by
      rw [valid.flagged other old, leaderless]
      exact fun absurdity => nomatch absurdity
    rw [isLeader_makeLeader, or_iff_left unflagged, Option.some_inj, eq_comm]

/-- Putting a node in the place of the leader leaves the pointers valid unless the old leader is
the own node. -/
theorem Valid.replaceLeader_iff (valid : m.Valid) (leads : m.leaderNode = some leader)
    (listed : node ∈ m.table.nodes) (other : node = leader → m.thisNode = some leader) :
    Valid ⟨(m.table.makeLeader node).removeNode leader, some node, m.thisNode⟩ ↔
      m.leaderNode ≠ m.thisNode := by
  rw [leads]
  constructor
  · intro kept own
    obtain ⟨this, listed, same⟩ := kept.thisListed
    exact (mem_removeNode.mp listed).2 (Option.some.inj (same.symm.trans own.symm))
  · intro notOwn
    obtain ⟨own, ownListed, this⟩ := valid.thisListed
    have different : node ≠ leader := fun same => notOwn (other same).symm
    refine ⟨⟨?_, ?_⟩, own, mem_removeNode.mpr ⟨ownListed, fun same => notOwn (same ▸ this).symm⟩,
      this⟩
    · rintro _ ⟨⟩
      exact mem_removeNode.mpr ⟨listed, different⟩
    · intro third thirdListed
      obtain ⟨old, notLeader⟩ := mem_removeNode.mp thirdListed
      have flag := isLeader_makeLeader m.table node third
      have unflagged : ¬(m.table.record third).isLeader = true := by
        rw [valid.flagged third old, leads]
        exact fun same => notLeader (Option.some.inj same).symm
      rw [or_iff_left unflagged] at flag
      exact flag.trans (Option.some_inj.trans eq_comm).symm

/-- The loop over the received keys leaves a valid leader pointer, whatever keys it gets,
since it sets pointer and flag together and on a node that it has just added. -/
theorem LeaderValid.addReceived (leaderIndex : Int) (keys : List NodeIdentifierKey) {i : ℕ}
    {m : Members} (valid : m.LeaderValid)
    (early : (i : Int) ≤ leaderIndex → m.leaderNode = none) :
    (addReceived leaderIndex i keys m).LeaderValid := by
  induction keys generalizing i m with
  | nil => exact valid
  | cons first keys ih =>
      cases added : m.table.addNode? first with
      | none =>
          rw [addReceived_cons_of_mem _ _ _ (addNode?_eq_none_iff.mp added)]
          exact ih valid fun later => early (by omega)
      | some table =>
          have valid' := valid.addNode? added m.thisNode
          have listed : first ∈ table.nodes := by
            rw [nodes_addNode? added]
            exact List.mem_append_right _ List.mem_cons_self
          simp only [Tcp.addReceived, added]
          by_cases leads : (i : Int) = leaderIndex
          · rw [if_pos leads]
            exact ih (valid'.setLeader (early leads.le) listed m.thisNode)
              fun later => absurd leads (by omega)
          · rw [if_neg leads]
            exact ih valid' fun later => early (by omega)

/-- A server that has not joined has no leader, which is valid. -/
theorem leaderValid_unjoined : unjoined.LeaderValid :=
  ⟨fun _ absurdity => (nomatch absurdity), fun _ absurdity => (nomatch absurdity)⟩

end Members

/-- The own key is not among the keys that the adder sent. -/
def Found.OwnIsNew (own : NodeIdentifierKey) : Found → Prop
  | cluster keys _ => own ∉ keys
  | nothing => True

instance (own : NodeIdentifierKey) : (found : Found) → Decidable (found.OwnIsNew own)
  | .cluster keys _ => inferInstanceAs (Decidable (own ∉ keys))
  | .nothing => inferInstanceAs (Decidable True)

/-- `FindClusterAndInit` sets valid pointers exactly if the own key is not among the received
ones; otherwise there is no own node. -/
theorem Found.members_valid_iff (own : NodeIdentifierKey) (found : Found) :
    (found.members own).Valid ↔ found.OwnIsNew own := by
  cases found with
  | nothing =>
      have empty : own ∉ unjoined.table.nodes := List.not_mem_nil
      obtain ⟨table, added, nodes⟩ := addNode?_of_notMem empty
      have listed : own ∈ table.nodes := nodes ▸ List.mem_append_right _ List.mem_cons_self
      have leader := (Members.leaderValid_unjoined.addNode? added none).setLeader rfl listed
        (some own)
      refine iff_of_true ?_ trivial
      simp only [members, addOwnNode, unjoined] at added ⊢
      simp only [added, ↓reduceIte]
      exact ⟨leader, own, listed, rfl⟩
  | cluster keys leaderIndex =>
      have valid := Members.leaderValid_unjoined.addReceived leaderIndex keys (i := 0) fun _ => rfl
      have this : (addReceived leaderIndex 0 keys unjoined).thisNode = none :=
        thisNode_addReceived leaderIndex 0 keys unjoined
      have listed : own ∈ (addReceived leaderIndex 0 keys unjoined).table.nodes ↔ own ∈ keys :=
        (mem_addReceived leaderIndex 0 keys unjoined own).trans (or_iff_right List.not_mem_nil)
      simp only [members, addOwnNode, this, OwnIsNew]
      rw [← listed]
      constructor
      · intro joined old
        rw [Members.addNode?_eq_none_iff.mpr old] at joined
        obtain ⟨_, -, own⟩ := joined.thisListed
        cases this.symm.trans own
      · intro fresh
        obtain ⟨table, added, nodes⟩ := addNode?_of_notMem fresh
        rw [added]
        exact ⟨valid.addNode? added _, own, nodes ▸ List.mem_append_right _ List.mem_cons_self, rfl⟩

namespace Server

/-- The members are the same around a call. -/
def KeepsMembers (s : Server) (_ : List Output) (s' : Server) : Prop :=
  Members.Same s.members s'.members

/-- Calls that keep the members can be run one after the other. -/
theorem keepsMembers_composes : Composes KeepsMembers :=
  ⟨fun s => .refl s.members, fun first second => first.trans second⟩

/-- A change of the Raft core that leaves its table alone leaves the members alone. -/
theorem sameMembers_of_sameConfig {s : Server} {raft : RaftServer NodeIdentifierKey}
    (same : RaftServer.SameConfig s.raft raft) :
    Members.Same s.members { s with raft := raft }.members :=
  ⟨same.nodes, same.flagged, rfl, same.thisNode⟩

/-- `become_leader` leaves the members alone: while there is a leader it only hands a job to
a worker, and without one it only sets indices of the nodes. -/
theorem becomeLeader_keepsMembers (s : Server) :
    KeepsMembers s s.becomeLeader.emitted s.becomeLeader.state := by
  unfold becomeLeader
  split
  · exact .refl _
  · rw [RaftServer.becomeLeader_eq]
    exact ⟨rfl, RaftServer.setNextIdxOf_isLeader _ _ _, rfl, rfl⟩

/-- Taking the vote of the leader away is not a change of the members. -/
theorem disqualifyLeader_keepsMembers (s : Server) :
    KeepsMembers s s.disqualifyLeader.emitted s.disqualifyLeader.state := by
  unfold disqualifyLeader
  split
  · exact .refl _
  · refine Outcome.bind_composes keepsMembers_composes _ _ s ?_ fun _ => .refl _
    rw [KeepsMembers, follow_state]
    exact .refl _

/-- `become_candidate` keeps the members: the leader is only marked as unable to vote, and
`m_pLeaderNode` still points to it. -/
theorem becomeCandidate_keepsMembers (rand : ℕ × ℕ) (s : Server) :
    KeepsMembers s (s.becomeCandidate rand).emitted (s.becomeCandidate rand).state := by
  refine Outcome.bind_composes keepsMembers_composes _ _ s s.disqualifyLeader_keepsMembers
    fun _ => Outcome.bind_composes keepsMembers_composes _ _ _ ?_ fun _ => ?_
  · rw [RaftServer.becomeCandidate_eq]
    exact .refl _
  · split <;> exact .refl _

/-- Counting a vote keeps the members, also when it makes the server the leader. -/
theorem recvRequestvoteResponse_keepsMembers (node : NodeIdentifierKey)
    (r : MsgRequestvoteResponse) (s : Server) :
    KeepsMembers s (s.recvRequestvoteResponse node r).emitted
      (s.recvRequestvoteResponse node r).state := by
  have marked : ∀ vote,
      KeepsMembers s [] { s with raft := s.raft.setVotesForMe node vote } := fun vote =>
    sameMembers_of_sameConfig (RaftServer.setVotesForMe_sameConfig node vote s.raft)
  unfold recvRequestvoteResponse
  split
  · exact .refl _
  · split
    · simp only
      split
      · exact Outcome.bind_composes keepsMembers_composes _ _ s
          ((marked 1).trans (becomeLeader_keepsMembers _)) fun _ => .refl _
      · exact marked 1
    · exact marked 0

/-- The timer keeps the members, whether it starts an election or sends heartbeats. -/
theorem advanceTimer_keepsMembers (msec : Int) (rand : ℕ × ℕ) (s : Server) :
    KeepsMembers s (s.advanceTimer msec rand).emitted (s.advanceTimer msec rand).state := by
  unfold advanceTimer
  simp only
  split
  · split
    · refine Outcome.bind_composes keepsMembers_composes _ _ s ?_ fun _ => .refl _
      rw [RaftServer.sendAppendentriesAll_eq]
      exact .refl _
    · exact .refl _
  · split
    · exact becomeCandidate_keepsMembers rand
        { s with raft := { s.raft with timeoutElapsed := s.raft.timeoutElapsed + msec } }
    · exact .refl _

/-- A pass of the periodic thread keeps the members. -/
theorem periodic_keepsMembers (msec : Int) (rand : ℕ × ℕ) (s : Server) :
    KeepsMembers s (s.periodic msec rand).emitted (s.periodic msec rand).state := by
  have timed : ∀ s : Server, KeepsMembers s _ _ := fun s =>
    Outcome.bind_composes keepsMembers_composes (s.advanceTimer msec rand)
      (fun _ s => (Effect.done s).returning (1 : Int)) s (advanceTimer_keepsMembers msec rand s)
      fun _ => .refl _
  unfold periodic
  split
  · refine Outcome.bind_composes keepsMembers_composes _ _ s ?_ fun result => ?_
    · obtain ⟨commit, applied, frame⟩ := (RaftServer.applyEntry_applied s.raft).frame
      simp only [inside, frame]
      exact .refl _
    · split
      · exact .refl _
      · exact timed _
  · exact timed s

/-- No handler of `RaftServer` changes the members: the core writes indices and votes of the
nodes, but no pointer and no leader flag. -/
theorem handle_sameMembers {event : Event NodeIdentifierKey} {s : Server}
    {effect : Effect Server Output} (handled : (s.handle event).effect? = some effect) :
    Members.Same s.members effect.state.members := by
  have unchanged : (s.inside (RaftServer.handle event s.raft)).effect? = some effect →
      Members.Same s.members effect.state.members := by
    intro defined
    obtain ⟨inner, called, state⟩ := inside_effect? defined
    rw [state]
    exact sameMembers_of_sameConfig (RaftServer.step_result called).sameConfig
  have final := ((Outcome.effect?_eq_some_iff _ _).mp handled).2.2
  cases event with
  | recvRequestvoteResponse node r answers =>
      rw [final]
      exact recvRequestvoteResponse_keepsMembers node r s
  | periodic msec rand =>
      rw [final]
      exact periodic_keepsMembers msec rand s
  | recvAppendentries => exact unchanged handled
  | recvAppendentriesResponse => exact unchanged handled
  | recvRequestvote => exact unchanged handled
  | recvEntry => exact unchanged handled

/-- A call that does not remove the own node or the leader. A server that takes itself for the
leader does so when it serves the announcement of a new leader or its own election. -/
def KeepsPointers (s : Server) : Call → Prop
  | .receive (.removeNode nodeKey) _ =>
      s.raft.thisNode ≠ some nodeKey ∧ s.leaderNode ≠ some nodeKey
  | .receive .oldLeaderDied _ => s.leaderNode.isSome → s.leaderNode ≠ s.raft.thisNode
  | .internal .removeNode node =>
      s.raft.state = .leader → s.raft.thisNode ≠ node ∧ s.leaderNode ≠ node
  | .internal .becomeLeader _ => s.raft.state = .candidate → s.leaderNode ≠ s.raft.thisNode
  | _ => True

instance (s : Server) (call : Call) : Decidable (s.KeepsPointers call) := by
  unfold KeepsPointers
  split <;> infer_instance

variable {s : Server} {effect : Effect Server Output}

/-- `AddNode` of a worker keeps both pointers valid. -/
theorem addNode_valid (valid : s.members.Valid) {nodeKey : NodeIdentifierKey}
    (defined : (s.addNode nodeKey).effect? = some effect) : effect.state.members.Valid := by
  unfold addNode at defined
  split at defined
  · rw [eq_of_returned defined]
    exact valid
  · rename_i table added
    rw [eq_of_returned defined]
    exact valid.addNode? added

/-- The locked part of a request from a node keeps the pointers valid exactly if it removes
neither the own node nor the leader, and does not bury the own node as the old leader. The
source checks none of this. -/
theorem handleReceiveFromNodeLocked_valid_iff (valid : s.members.Valid) {request : LockedRequest}
    {sender : NodeIdentifierKey}
    (defined : (s.handleReceiveFromNodeLocked request sender).effect? = some effect) :
    effect.state.members.Valid ↔ s.KeepsPointers (.receive request sender) := by
  cases request with
  | newNode nodeKey => exact iff_of_true (addNode_valid valid defined) trivial
  | removeNode nodeKey =>
      rw [eq_of_returned defined]
      exact valid.removeNode_iff
  | oldLeaderDied =>
      unfold handleReceiveFromNodeLocked at defined
      cases leads : s.leaderNode with
      | none =>
          simp only [leads] at defined
          rw [eq_of_returned defined, KeepsPointers, leads]
          exact iff_of_true valid fun absurdity => nomatch absurdity
      | some leader =>
          simp only [leads] at defined
          obtain ⟨_, ⟨⟩, -, defined⟩ := follow_bind_effect? defined
          obtain ⟨_, ⟨⟩, listed, defined⟩ := follow_bind_effect? defined
          obtain ⟨old, different⟩ := Members.mem_removeNode.mp listed
          rw [eq_of_returned defined, KeepsPointers, forall_prop_of_true (by simp [leads])]
          exact valid.replaceLeader_iff leads old fun same => absurd same different

/-- The locked part of an internal request keeps the pointers valid exactly if a leader is
not told to remove itself and a candidate that takes over is not the leader that it removes. -/
theorem handleInternalLocked_valid_iff (valid : s.members.Valid) {request : InternalRequest}
    {node : Option NodeIdentifierKey}
    (defined : (s.handleInternalLocked request node).effect? = some effect) :
    effect.state.members.Valid ↔ s.KeepsPointers (.internal request node) := by
  cases request with
  | removeNode =>
      unfold handleInternalLocked at defined
      by_cases leads : s.raft.state = .leader
      · simp only [if_pos leads] at defined
        obtain ⟨target, rfl, -, defined⟩ := follow_bind_effect? defined
        rw [eq_of_returned defined, KeepsPointers, forall_prop_of_true leads]
        exact valid.removeNode_iff
      · simp only [if_neg leads] at defined
        rw [eq_of_returned defined]
        exact iff_of_true valid fun leader => absurd leader leads
  | becomeLeader =>
      unfold handleInternalLocked at defined
      by_cases stands : s.raft.state = .candidate
      · simp only [if_pos stands] at defined
        obtain ⟨own, this, listed, defined⟩ := follow_bind_effect? defined
        obtain ⟨_, rest, -, removed, state, -⟩ :=
          Outcome.bind_effect?_eq_some (by simp [inside]) defined
        obtain ⟨leader, leads, -, removed⟩ := follow_bind_effect? removed
        have same : Members.Same ⟨(s.raft.table.makeLeader own).removeNode leader, some own,
            s.raft.thisNode⟩ effect.state.members := by
          rw [state, eq_of_returned removed, RaftServer.becomeLeader_eq]
          exact ⟨rfl, RaftServer.setNextIdxOf_isLeader _ _ _, rfl, rfl⟩
        rw [same.valid_iff, KeepsPointers, forall_prop_of_true stands]
        exact valid.replaceLeader_iff leads listed fun ownLeads => ownLeads ▸ this
      · simp only [if_neg stands] at defined
        rw [eq_of_returned defined]
        exact iff_of_true valid fun candidate => absurd candidate stands

/-- A call keeps the pointers valid exactly under the condition. -/
theorem step_valid_iff (valid : s.members.Valid) {call : Call}
    (stepped : machine.step s call = some effect) :
    effect.state.members.Valid ↔ s.KeepsPointers call := by
  cases call with
  | newConnection nodeKey => exact iff_of_true (addNode_valid valid stepped) trivial
  | receive request sender => exact handleReceiveFromNodeLocked_valid_iff valid stepped
  | internal request node => exact handleInternalLocked_valid_iff valid stepped
  | ableToVote node able =>
      cases stepped
      exact iff_of_true valid trivial
  | raft event => exact iff_of_true ((handle_sameMembers stepped).valid valid) trivial

/-- The pointers are valid in all states of a run exactly if the own key is new in the cluster and
no call removes the own node or the leader. -/
theorem pointers_valid_iff (own : NodeIdentifierKey) (timing : Timing) (found : Found)
    {trace : List Step} {s : Server} (run : RunFrom own timing found trace s) :
    ((findClusterAndInit own timing found).members.Valid ∧
        ∀ t ∈ trace, t.after.members.Valid) ↔
      found.OwnIsNew own ∧ ∀ t ∈ trace, t.before.KeepsPointers t.event := by
  have start : (findClusterAndInit own timing found).members.Valid ↔ found.OwnIsNew own :=
    found.members_valid_iff own
  rw [start]
  refine and_congr_right fun new => ?_
  exact (run.forall_after_iff (I := fun s => s.members.Valid)
    (P := fun t => t.before.KeepsPointers t.event) (start.mpr new)
    fun _ valid stepped => step_valid_iff valid stepped).1

/-- A follower learns of a new node, and that this node has taken over from the leader. -/
def successionCalls : List Call :=
  [.newConnection (.ofPort 2), .receive .oldLeaderDied (.ofPort 2)]

/-- A server joins a cluster, learns of a new node and that this node has taken over from
the leader: every call keeps the pointers valid. -/
theorem pointers_valid_succession :
    (machine.execute (findClusterAndInit (.ofPort 1) {} (.cluster [.zero] 0))
        successionCalls).isSome = true ∧
      (findClusterAndInit (.ofPort 1) {} (.cluster [.zero] 0)).members.Valid ∧
      ∀ t ∈ machine.traceOf (findClusterAndInit (.ofPort 1) {} (.cluster [.zero] 0))
        successionCalls, t.after.members.Valid := by
  have defined : (machine.execute (findClusterAndInit (.ofPort 1) {} (.cluster [.zero] 0))
      successionCalls).isSome = true := by decide
  exact ⟨defined, (pointers_valid_iff (.ofPort 1) {} (.cluster [.zero] 0)
    (run_traceOf machine _ _ defined)).mpr ⟨by decide, by decide⟩⟩

/-- A server that found nothing accepts a node, hears from it as leader of a later term, and waits
until its election timeout has passed. -/
def stepDownCalls : List Call :=
  .newConnection (.ofPort 2) ::
    .raft (.recvAppendentries true (.ofPort 2) (.new 1 0 0 0 0) (0, 0)) ::
      List.replicate 11 (.raft (.periodic 2000 (0, 0)))

/-- The server then asks its workers to make it leader, and the worker removes the own node. -/
theorem own_node_removed :
    (machine.traceOf (findClusterAndInit (.ofPort 1) {} .nothing) stepDownCalls).getLast?.map
        (fun t => t.emitted.getLast?) = some (some (.addInternalForWorker .becomeLeader)) ∧
      ∃ trace s, RunFrom (.ofPort 1) {} .nothing trace s ∧
        trace.map Transition.event = stepDownCalls ++ [.internal .becomeLeader none] ∧
        s.members.thisNode = some (.ofPort 1) ∧ s.members.leaderNode = some (.ofPort 1) ∧
        s.members.table.nodes = [.ofPort 2] :=
  ⟨by decide, _, _,
    run_traceOf machine _ (stepDownCalls ++ [.internal .becomeLeader none]) (by decide), rfl,
    by decide⟩

end Server

end Tcp

end CppRaft
