import CppRaft.Server.Handlers

/-!
# What the sending functions do

Closed forms of the functions that walk the node table: which nodes are
addressed, with which message, and what they change.
-/

namespace CppRaft

open Machine

namespace RaftServer

variable {Node : Type}

/-- A message to each of some nodes, if the send callback is set. -/
def sends (nodes : List Node) (msg : Node → Message) (s : RaftServer Node) :
    List (Action Node) :=
  if s.callbacks.send then nodes.map fun node => .send node (msg node) else []

/-- A broadcast emits one message for each of its nodes, and nothing without the callback. -/
theorem mem_sends {nodes : List Node} {msg : Node → Message} {s : RaftServer Node}
    {action : Action Node} :
    action ∈ s.sends nodes msg ↔
      s.callbacks.send = true ∧ ∃ node ∈ nodes, action = .send node (msg node) := by
  unfold sends
  split
  · simp [*, eq_comm]
  · simp [*]

/-- A message is part of a broadcast if it goes to one of the nodes and is the one for that
node. -/
theorem send_mem_sends {nodes : List Node} {msg : Node → Message} {s : RaftServer Node}
    {node : Node} {sent : Message} :
    .send node sent ∈ s.sends nodes msg ↔
      s.callbacks.send = true ∧ node ∈ nodes ∧ sent = msg node := by
  rw [mem_sends]
  refine and_congr_right fun _ => ⟨?_, ?_⟩
  · rintro ⟨_, member, ⟨⟩⟩
    exact ⟨member, rfl⟩
  · rintro ⟨member, rfl⟩
    exact ⟨node, member, rfl⟩

/-- A broadcast to nobody emits nothing. -/
theorem sends_nil (msg : Node → Message) (s : RaftServer Node) : s.sends [] msg = [] := by
  simp [sends]

/-- A broadcast is sent node by node. -/
theorem sends_cons (node : Node) (rest : List Node) (msg : Node → Message)
    (s : RaftServer Node) :
    s.sends (node :: rest) msg = s.sends [node] msg ++ s.sends rest msg := by
  unfold sends
  split <;> simp

/-- Sending to each of the nodes is broadcasting to them. -/
theorem flatMap_sends (nodes : List Node) (msg : Node → Message) (s : RaftServer Node) :
    nodes.flatMap (fun node => s.sends [node] msg) = s.sends nodes msg := by
  induction nodes with
  | nil => rw [List.flatMap_nil, sends_nil]
  | cons node rest ih => rw [List.flatMap_cons, ih, sends_cons node rest]

/-- The header that `send_appendentries` builds for a node. -/
def appendentriesFor (node : Node) (s : RaftServer Node) : MsgAppendEntries :=
  .new s.currentTerm 0 (s.table.record node).nextIdx 0 s.leaderCommit

/-- `send_requestvote` leaves the server as it is; the candidate id and the last term of the
message are always zero. -/
theorem sendRequestvote_eq (node : Node) (s : RaftServer Node) :
    sendRequestvote node s =
      ⟨s, s.sends [node] fun _ => .requestvote ⟨s.currentTerm, 0, s.currentIdx, 0⟩⟩ := by
  unfold sendRequestvote sends
  split <;> rfl

/-- `send_appendentries` leaves the server as it is and sends the message that its indices
describe. -/
theorem sendAppendentries_eq (node : Node) (s : RaftServer Node) :
    sendAppendentries node s =
      ⟨s, s.sends [node] fun node => .appendentries (appendentriesFor node s)⟩ := by
  unfold sendAppendentries appendentriesFor MsgAppendEntries.new sends
  split <;> rfl

variable [DecidableEq Node]

/-- The test by which `forAllNodesExceptSelf` passes over a node. -/
def skips (skipLeader : Bool) (node : Node) (s : RaftServer Node) : Bool :=
  decide (some node = s.thisNode ∨ (skipLeader ∧ (s.table.record node).isLeader))

/-- The nodes that `forAllNodesExceptSelf` visits. -/
def peers (skipLeader : Bool) (s : RaftServer Node) : List Node :=
  s.table.nodes.filter fun node => !skips skipLeader node s

/-- The node table after `become_leader` has set `next_idx` of the nodes it visits. -/
def setNextIdxOf (nodes : List Node) (idx : Int) (table : NodeTable Node) : NodeTable Node :=
  { table with
    record := fun node =>
      if node ∈ nodes then { table.record node with nextIdx := idx } else table.record node }

/-- The traversal of the nodes, if no callback changes which nodes are skipped: the callback
is run for the peers of the server at the start. -/
theorem forAllNodesExceptSelf_eq
    (callback : Node → RaftServer Node → Effect (RaftServer Node) (Action Node))
    (skipLeader : Bool)
    (keeps : ∀ a b s, skips skipLeader b (callback a s).state = skips skipLeader b s)
    (s : RaftServer Node) :
    forAllNodesExceptSelf callback skipLeader s =
      Effect.forEach callback (s.peers skipLeader) s := by
  unfold forAllNodesExceptSelf peers
  rw [← Effect.forEach_skip (skips skipLeader) callback keeps]
  congr 1
  funext node s
  unfold skips
  by_cases self : some node = s.thisNode
  · simp [self]
  · by_cases flagged : skipLeader ∧ (s.table.record node).isLeader
    · simp [flagged]
    · simp [self, flagged]

/-- A broadcast of AppendEntries changes nothing and addresses every peer once. -/
theorem forAll_sendAppendentries (skipLeader : Bool) (s : RaftServer Node) :
    forAllNodesExceptSelf sendAppendentries skipLeader s =
      ⟨s, s.sends (s.peers skipLeader) fun node => .appendentries (appendentriesFor node s)⟩ := by
  rw [forAllNodesExceptSelf_eq _ _ (fun a b s => by rw [sendAppendentries_eq]),
    Effect.forEach_emit _ _ sendAppendentries_eq, flatMap_sends]

/-- A broadcast of RequestVote changes nothing and addresses every peer once. -/
theorem forAll_sendRequestvote (skipLeader : Bool) (s : RaftServer Node) :
    forAllNodesExceptSelf sendRequestvote skipLeader s =
      ⟨s, s.sends (s.peers skipLeader) fun _ =>
        .requestvote ⟨s.currentTerm, 0, s.currentIdx, 0⟩⟩ := by
  rw [forAllNodesExceptSelf_eq _ _ (fun a b s => by rw [sendRequestvote_eq]),
    Effect.forEach_emit _ _ sendRequestvote_eq, flatMap_sends]

/-- `send_appendentries_all` raises `m_nLeaderCommit` and addresses every peer once. -/
theorem sendAppendentriesAll_eq (s : RaftServer Node) :
    sendAppendentriesAll s =
      ⟨{ s with leaderCommit := s.leaderCommit + 1 },
        s.sends (s.peers false) fun node => .appendentries
          (.new s.currentTerm 0 (s.table.record node).nextIdx 0 (s.leaderCommit + 1))⟩ := by
  unfold sendAppendentriesAll
  rw [forAll_sendAppendentries]
  rfl

/-- `become_candidate` raises the term, votes for itself and asks every peer once. -/
theorem becomeCandidate_eq (rand : ℕ × ℕ) (s : RaftServer Node) :
    becomeCandidate rand s =
      ⟨{ s with
          currentTerm := s.currentTerm + s.termIncrement rand.1
          votedFor := s.thisNode
          state := .candidate
          timeoutElapsed := (rand.2 % 500 : ℕ) },
        s.sends (s.peers true) fun _ => .requestvote
          ⟨s.currentTerm + s.termIncrement rand.1, 0, s.currentIdx, 0⟩⟩ := by
  unfold becomeCandidate
  rw [forAll_sendRequestvote]
  rfl

/-- Setting the next index of one node, as a change of the table. -/
theorem setNextIdx_eq (node : Node) (idx : Int) (s : RaftServer Node) :
    s.setNextIdx node idx = { s with table := setNextIdxOf [node] idx s.table } := by
  unfold setNextIdx NodeTable.update setNextIdxOf
  congr 2
  funext other
  by_cases same : other = node
  · subst same
    simp
  · simp [same]

/-- The next index of a node after it was set for some nodes. -/
theorem nextIdx_setNextIdxOf (nodes : List Node) (idx : Int) (table : NodeTable Node)
    (node : Node) :
    ((setNextIdxOf nodes idx table).record node).nextIdx =
      if node ∈ nodes then idx else (table.record node).nextIdx := by
  simp only [setNextIdxOf]
  split <;> rfl

/-- Next indices are set node by node. -/
theorem setNextIdxOf_cons (node : Node) (rest : List Node) (idx : Int) (table : NodeTable Node) :
    setNextIdxOf rest idx (setNextIdxOf [node] idx table) =
      setNextIdxOf (node :: rest) idx table := by
  unfold setNextIdxOf
  congr 1
  funext other
  by_cases same : other = node
  · simp [same]
  · by_cases later : other ∈ rest <;> simp [same, later]

/-- One visit of `become_leader`. -/
private theorem promote_eq (node : Node) (s : RaftServer Node) :
    sendAppendentries node (s.setNextIdx node (s.currentIdx + 1)) =
      ⟨{ s with table := setNextIdxOf [node] (s.currentIdx + 1) s.table },
        s.sends [node] fun _ => .appendentries
          (.new s.currentTerm 0 (s.currentIdx + 1) 0 s.leaderCommit)⟩ := by
  rw [sendAppendentries_eq, setNextIdx_eq]
  simp [appendentriesFor, setNextIdxOf, sends]

/-- The visits of `become_leader`. -/
private theorem forEach_promote (nodes : List Node) (s : RaftServer Node) :
    Effect.forEach
        (fun node s => sendAppendentries node (s.setNextIdx node (s.currentIdx + 1))) nodes s =
      ⟨{ s with table := setNextIdxOf nodes (s.currentIdx + 1) s.table },
        s.sends nodes fun _ => .appendentries
          (.new s.currentTerm 0 (s.currentIdx + 1) 0 s.leaderCommit)⟩ := by
  induction nodes generalizing s with
  | nil => simp [Effect.forEach, Effect.done, setNextIdxOf, sends_nil]
  | cons node rest ih =>
      rw [Effect.forEach, promote_eq, Effect.andThen, ih, setNextIdxOf_cons,
        sends_cons node rest]
      rfl

/-- `become_leader` sets `next_idx` of the peers that are not flagged leader and sends each of
them one empty AppendEntries. -/
theorem becomeLeader_eq (s : RaftServer Node) :
    becomeLeader s =
      ⟨{ s with
          state := .leader
          votedFor := none
          table := setNextIdxOf (s.peers true) (s.currentIdx + 1) s.table },
        s.sends (s.peers true) fun _ => .appendentries
          (.new s.currentTerm 0 (s.currentIdx + 1) 0 s.leaderCommit)⟩ := by
  unfold becomeLeader
  rw [forAllNodesExceptSelf_eq, forEach_promote]
  · rfl
  · intro a b s
    rw [sendAppendentries_eq, setNextIdx_eq]
    unfold skips setNextIdxOf
    by_cases same : b = a <;> simp [same]

/-- The nodes that messages are sent to, in the order of the calls. -/
def addressees (emitted : List (Action Node)) : List Node :=
  emitted.filterMap fun action =>
    match action with
    | .send node _ => some node
    | _ => none

/-- What is emitted is one message of the given content to each node of the table other than
`m_thisNode` that is not flagged as leader, in the order of the table. -/
structure ReachesPeersOnce (s : RaftServer Node) (emitted : List (Action Node))
    (content : Message → Prop) : Prop where
  once : ∀ node, (addressees emitted).count node =
    if node ∈ s.table.nodes ∧ some node ≠ s.thisNode ∧ (s.table.record node).isLeader = false
    then 1 else 0
  ordered : (addressees emitted).Sublist s.table.nodes
  sent : ∀ action ∈ emitted, ∃ node msg, action = .send node msg ∧ content msg

omit [DecidableEq Node] in
/-- A broadcast reaches the nodes that it is meant for, in their order. -/
theorem addressees_sends (nodes : List Node) (msg : Node → Message) {s : RaftServer Node}
    (callback : s.callbacks.send = true) : addressees (s.sends nodes msg) = nodes := by
  rw [sends, if_pos callback, addressees, List.filterMap_map]
  exact List.filterMap_some

/-- The peers of a server are the nodes that are neither the server itself nor flagged as
leader. -/
theorem mem_peers {s : RaftServer Node} {node : Node} :
    node ∈ s.peers true ↔ node ∈ s.table.nodes ∧ some node ≠ s.thisNode ∧
      (s.table.record node).isLeader = false := by
  simp [peers, skips]

/-- A node is met once in a traversal, as the table has no node twice. -/
theorem count_peers (s : RaftServer Node) (node : Node) :
    (s.peers true).count node =
      if node ∈ s.table.nodes ∧ some node ≠ s.thisNode ∧ (s.table.record node).isLeader = false
      then 1 else 0 := by
  rw [← if_congr mem_peers rfl rfl]
  split
  · exact List.count_eq_one_of_mem (s.table.distinct.filter _) ‹_›
  · exact List.count_eq_zero_of_not_mem ‹_›

/-- A broadcast that skips the leader reaches each peer once. -/
theorem reachesPeersOnce_sends {s : RaftServer Node} (callback : s.callbacks.send = true)
    {content : Message → Prop} {msg : Node → Message} (meets : ∀ node, content (msg node)) :
    ReachesPeersOnce s (s.sends (s.peers true) msg) content where
  once node := by
    rw [addressees_sends _ _ callback]
    exact count_peers s node
  ordered := by
    rw [addressees_sends _ _ callback]
    exact List.filter_sublist
  sent action emitted := by
    obtain ⟨-, node, -, rfl⟩ := mem_sends.mp emitted
    exact ⟨node, msg node, rfl, meets node⟩

/-- The log and the indices that belong to it. -/
def logState (s : RaftServer Node) : RaftLogger × Int × Int × Int :=
  (s.log, s.currentIdx, s.commitIdx, s.lastAppliedIdx)

/-- The broadcasts of an election reach each peer once: `become_candidate` with a request of the
term it has raised, `become_leader` with an empty header, after it has set `next_idx` of these
nodes and of no other. -/
theorem election_broadcasts_reach_peers (s : RaftServer Node) (rand : ℕ × ℕ)
    (callback : s.callbacks.send = true) :
    (s.currentTerm < (becomeCandidate rand s).state.currentTerm ∧
      ReachesPeersOnce s (becomeCandidate rand s).emitted fun msg =>
        msg = .requestvote
          ⟨(becomeCandidate rand s).state.currentTerm, 0, s.currentIdx, 0⟩) ∧
    (ReachesPeersOnce s (becomeLeader s).emitted fun msg =>
        ∃ ae, msg = .appendentries ae ∧ ae.entries = []) ∧
    (∀ node, ((becomeLeader s).state.table.record node).nextIdx =
      if node ∈ s.table.nodes ∧ some node ≠ s.thisNode ∧ (s.table.record node).isLeader = false
      then s.currentIdx + 1 else (s.table.record node).nextIdx) ∧
    (becomeLeader s).state.logState = s.logState := by
  rw [becomeCandidate_eq, becomeLeader_eq]
  refine ⟨⟨?_, reachesPeersOnce_sends callback fun _ => rfl⟩,
    reachesPeersOnce_sends callback fun _ => ⟨_, rfl, rfl⟩, fun node => ?_, rfl⟩
  · simp only [termIncrement]
    omega
  · exact (nextIdx_setNextIdxOf _ _ _ node).trans (if_congr mem_peers rfl rfl)

/-- A member of three nodes, of which the last is flagged as leader. -/
def followerOfLast : RaftServer (Fin 3) :=
  init { Config.member 0 with flagged := fun node => node = 2 }

/-- A follower of the last node stands for election: its RequestVote goes to the other peer
and not to the leader. -/
theorem election_broadcasts_reach_peers_of_follower :
    followerOfLast.callbacks.send = true ∧
      (addressees (becomeCandidate (0, 0) followerOfLast).emitted).count 1 = 1 ∧
      (addressees (becomeCandidate (0, 0) followerOfLast).emitted).count 2 = 0 ∧
      ((becomeLeader followerOfLast).state.table.record 1).nextIdx = 2 :=
  have broadcasts := election_broadcasts_reach_peers followerOfLast (0, 0) rfl
  ⟨rfl, broadcasts.1.2.once 1, broadcasts.1.2.once 2, broadcasts.2.2.1 1⟩

end RaftServer

end CppRaft
