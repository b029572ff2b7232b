import Mathlib.Data.Fintype.Card
import CppRaft.Machine.Network
import CppRaft.Server.Run

/-!
# A cluster of servers

Servers with the same node table exchange the messages that `cb.send` is called
with. Ticks come at any time with any elapsed time and any random numbers, and
client entries are submitted to leaders.
-/

namespace CppRaft

open Machine

variable {Node : Type} [DecidableEq Node]

/-- The configurations of a cluster: every table holds all nodes, and each server knows its
own node. -/
structure Cluster (Node : Type) where
  config : Node → Config Node
  complete : ∀ self node, node ∈ (config self).nodes
  own : ∀ self, (config self).thisNode = some self

namespace Cluster

/-- The servers as constructed, with nothing in flight. -/
def start (cluster : Cluster Node) :
    NetState Node (RaftServer Node) (Event Node) Message where
  node := fun self => RaftServer.init (cluster.config self)
  inFlight := []

/-- The term of the request that a vote response answers. -/
def answeredTerm : Event Node → Int
  | .recvRequestvote _ vr => vr.term
  | _ => 0

/-- The handler call for a packet. The choice supplies the arguments of `recv_appendentries`
that the message does not determine. -/
def receive (packet : Packet Node (Event Node) Message) (choice : Bool × Int × Int) :
    Option (Event Node) :=
  match packet.msg with
  | .requestvote vr => some (.recvRequestvote packet.src vr)
  | .requestvoteResponse r =>
      some (.recvRequestvoteResponse packet.src r (answeredTerm packet.cause))
  | .appendentries ae => some (.recvAppendentries choice.1 packet.src ae choice.2)
  | .appendentriesResponse r => some (.recvAppendentriesResponse packet.src r)
  | .appendentriesPayload _ => none
  | .entryResponse _ => none

/-- What a server handles without a message: ticks, and client entries while it leads. -/
def spontaneous (s : RaftServer Node) : Event Node → Bool
  | .periodic _ _ => true
  | .recvEntry _ _ => decide (s.state = .leader)
  | _ => false

/-- The addressee and the payload of an action. -/
def sent? : Action Node → Option (Node × Message)
  | .send node msg => some (node, msg)
  | _ => none

omit [DecidableEq Node] in
/-- The packets of the network are the messages that the servers send. -/
theorem sent?_eq_some {action : Action Node} {node : Node} {msg : Message}
    (sends : sent? action = some (node, msg)) : action = .send node msg := by
  cases action with
  | send receiver payload =>
      obtain ⟨rfl, rfl⟩ := Prod.mk.inj (Option.some.inj sends)
      rfl
  | applylog _ _ => cases sends
  | appended _ => cases sends

variable (Node) in
/-- Servers that exchange messages. -/
def protocol :
    Protocol Node (RaftServer Node) (Event Node) (Action Node) Message (Bool × Int × Int) where
  machine := RaftServer.machine Node
  sends := sent?
  receive := receive
  spontaneous := spontaneous

/-- A step of the cluster. -/
abbrev ClusterStep (Node : Type) : Type :=
  Transition (NetState Node (RaftServer Node) (Event Node) Message)
    (NetEvent Node (Event Node) (Bool × Int × Int)) (Node × Action Node)

/-- A run of the cluster. -/
abbrev RunOf (cluster : Cluster Node) (trace : List (ClusterStep Node))
    (s : NetState Node (RaftServer Node) (Event Node) Message) : Prop :=
  (protocol Node).network.Run cluster.start trace s

/-- The run of one server. -/
abbrev serverTrace (self : Node) (trace : List (ClusterStep Node)) : List (RaftServer.Step Node) :=
  (protocol Node).localTrace self trace

/-- What a run of the cluster shows of one server is a run of that server, so every theorem
about single servers holds of each member. -/
theorem RunOf.server {cluster : Cluster Node} {trace : List (ClusterStep Node)}
    {s : NetState Node (RaftServer Node) (Event Node) Message} (run : RunOf cluster trace s)
    (self : Node) :
    RaftServer.RunFrom (cluster.config self) (serverTrace self trace) (s.node self) :=
  (protocol Node).run_localTrace run self

/-- A packet of a run was sent by its source, in the call that caused it. -/
theorem sent_of_emitted {trace : List (ClusterStep Node)}
    {packet : Packet Node (Event Node) Message}
    (emitted : (protocol Node).Emitted trace packet) :
    ∃ t ∈ serverTrace packet.src trace, t.event = packet.cause ∧
      .send packet.dst packet.msg ∈ t.emitted := by
  obtain ⟨t, member, cause, action, actionMember, sends⟩ := emitted
  rw [sent?_eq_some sends] at actionMember
  exact ⟨t, member, cause, actionMember⟩

/-- All nodes are counted. -/
theorem length_nodes [Fintype Node] (cluster : Cluster Node) (self : Node) :
    (cluster.config self).nodes.length = Fintype.card Node := by
  rw [← List.toFinset_card_of_nodup (cluster.config self).distinct, ← Finset.card_univ]
  congr 1
  ext node
  simp [cluster.complete self node]

/-- The cluster of `n` members. -/
def ofMembers (n : ℕ) : Cluster (Fin n) where
  config := Config.member
  complete := fun _ node => List.mem_finRange node
  own := fun _ => rfl

/-- The steps that the cluster of `n` members takes on a list of events. -/
abbrev clusterTrace {n : ℕ} (events : List (NetEvent (Fin n) (Event (Fin n)) (Bool × Int × Int))) :
    List (ClusterStep (Fin n)) :=
  traceOf (protocol (Fin n)).network (ofMembers n).start events

/-- The state that a list of events leads the cluster of `n` members to. -/
abbrev clusterState {n : ℕ} (events : List (NetEvent (Fin n) (Event (Fin n)) (Bool × Int × Int))) :
    NetState (Fin n) (RaftServer (Fin n)) (Event (Fin n)) Message :=
  stateOf (protocol (Fin n)).network (ofMembers n).start events

/-- A tick that starts an election with the least term increment. -/
def electionAt {n : ℕ} (self : Fin n) : NetEvent (Fin n) (Event (Fin n)) (Bool × Int × Int) :=
  .spontaneous self (.periodic 1000 (0, 0))

/-- The delivery of the packet at a position. -/
def deliverAt {n : ℕ} (position : ℕ) : NetEvent (Fin n) (Event (Fin n)) (Bool × Int × Int) :=
  .deliver position (true, 0, 0)

end Cluster

end CppRaft
