import Mathlib.Data.List.FinRange
import Mathlib.Logic.Function.Basic
import CppRaft.Core.Logger

/-!
# The state of a server

The fields of `RaftServer` and `RaftNode2` that the Raft handlers read or write.
A node is named by what the source identifies it with, its address in the node
table; `Node` is any type of such names.
-/

namespace CppRaft

/-- `RAFT_STATE`. -/
inductive RaftState where
  | none
  | follower
  | candidate
  | leader
  deriving DecidableEq, Repr

/-- The Raft fields of `RaftNode2`, as its constructor sets them. -/
structure RaftNode where
  nextIdx : Int := 0
  votesForMe : Int := 0
  isLeader : Bool := false
  deriving DecidableEq, Repr

/-- `m_Nodes`: the nodes of the table in list order, each once, and the record behind
every node name. -/
structure NodeTable (Node : Type) where
  nodes : List Node
  distinct : nodes.Nodup
  record : Node → RaftNode

/-- `m_Nodes.count()`. -/
def NodeTable.count {Node : Type} (table : NodeTable Node) : ℕ :=
  table.nodes.length

/-- Write the record behind a node name. -/
def NodeTable.update {Node : Type} [DecidableEq Node] (table : NodeTable Node) (node : Node)
    (change : RaftNode → RaftNode) : NodeTable Node :=
  { table with record := Function.update table.record node (change (table.record node)) }

/-- Which of the callbacks in `raft_cbs_t` are set. -/
structure Callbacks where
  send : Bool
  applylog : Bool
  deriving DecidableEq, Repr

/-- `RaftServer`. -/
structure RaftServer (Node : Type) where
  currentTerm : Int
  votedFor : Option Node
  log : RaftLogger
  commitIdx : Int
  lastAppliedIdx : Int
  state : RaftState
  currentIdx : Int
  timeoutElapsed : Int
  table : NodeTable Node
  leaderCommit : Int
  electionTimeout : Int
  requestTimeout : Int
  callbacks : Callbacks
  thisNode : Option Node

/-- What a call does outside the server's fields. `send` and `applylog` are the
callbacks, `applylog` with the index and the entry whose bytes it passes; `appended`
dates the entry that `log_append_entry` pushes at an index. -/
inductive Action (Node : Type) where
  | send (node : Node) (msg : Message)
  | applylog (idx : Int) (entry : RaftEntry)
  | appended (idx : Int)
  deriving DecidableEq, Repr

/-- What is set on a server between its construction and its first handler call. -/
structure Config (Node : Type) where
  nodes : List Node
  distinct : nodes.Nodup
  flagged : Node → Bool
  thisNode : Option Node
  callbacks : Callbacks
  electionTimeout : Int
  requestTimeout : Int

/-- The member `self` of a cluster of `n` nodes, with the constructor's timeouts. -/
def Config.member {n : ℕ} (self : Fin n) : Config (Fin n) where
  nodes := List.finRange n
  distinct := List.nodup_finRange n
  flagged := fun _ => false
  thisNode := some self
  callbacks := ⟨true, true⟩
  electionTimeout := 1000
  requestTimeout := 200

namespace RaftServer

variable {Node : Type}

/-- The constructor, `RaftServer::RaftServer`. -/
def new : RaftServer Node where
  currentTerm := 0
  votedFor := .none
  log := []
  commitIdx := 0
  lastAppliedIdx := 0
  state := .follower
  currentIdx := 1
  timeoutElapsed := 0
  table := ⟨[], List.nodup_nil, fun _ => {}⟩
  leaderCommit := 0
  electionTimeout := 1000
  requestTimeout := 200
  callbacks := ⟨false, false⟩
  thisNode := .none

/-- A constructed server with its nodes added, its own node, callbacks and timeouts set. -/
def init (config : Config Node) : RaftServer Node :=
  { (new : RaftServer Node) with
    table := ⟨config.nodes, config.distinct, fun node => { isLeader := config.flagged node }⟩
    electionTimeout := config.electionTimeout
    requestTimeout := config.requestTimeout
    callbacks := config.callbacks
    thisNode := config.thisNode }

/-- `set_next_idx` of a node. -/
def setNextIdx [DecidableEq Node] (node : Node) (idx : Int) (s : RaftServer Node) :
    RaftServer Node :=
  { s with table := s.table.update node fun record => { record with nextIdx := idx } }

/-- `setVotesForMe` of a node. -/
def setVotesForMe [DecidableEq Node] (node : Node) (vote : Int) (s : RaftServer Node) :
    RaftServer Node :=
  { s with table := s.table.update node fun record => { record with votesForMe := vote } }

end RaftServer

end CppRaft
