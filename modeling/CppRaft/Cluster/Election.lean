import Mathlib.Data.Finset.Card
import CppRaft.Cluster.Basic
import CppRaft.Server.Election

/-!
# At most one leader in a term

Every elector of a leader has granted it a vote of its term, or is the leader and
stood in that term. Two majorities have an elector in common, and it has one vote
in the term.
-/

namespace CppRaft

open Machine RaftServer

namespace Cluster

variable {Node : Type} [DecidableEq Node]

omit [DecidableEq Node] in
/-- A vote that a server receives is the one in the packet, and the term that it answers is
that of the request which made the voter send it. -/
theorem receive_eq_voteResponse {packet : Packet Node (Event Node) Message}
    {choice : Bool × Int × Int} {node : Node} {r : MsgRequestvoteResponse} {term : Int}
    (received : receive packet choice = some (.recvRequestvoteResponse node r term)) :
    packet.src = node ∧ packet.msg = .requestvoteResponse r ∧
      answeredTerm packet.cause = term := by
  unfold receive at received
  split at received <;> cases received
  exact ⟨rfl, ‹_›, rfl⟩

/-- An answer that grants a vote is one of the votes of the run. -/
theorem granted_mem_votes {config : Config Node} {trace : List (Step Node)}
    {s : RaftServer Node} (run : RunFrom config trace s) {t : Step Node} (member : t ∈ trace)
    {node : Node} {r : MsgRequestvoteResponse}
    (sent : .send node (.requestvoteResponse r) ∈ t.emitted) (granted : r.voteGranted = 1) :
    .granted (answeredTerm t.event) node ∈ votes trace := by
  obtain ⟨past, earlier, stepped⟩ := run.at_mem member
  obtain ⟨vr, event⟩ := (step_result stepped).event_of_voteResponse
    (RunFrom.hasPendingEntry_eq_false earlier) sent
  refine List.mem_filterMap.mpr ⟨t, member, ?_⟩
  have answered : grantedTo node t.emitted = true :=
    List.any_eq_true.mpr ⟨_, sent, by simp [granted]⟩
  simp only [voteOf, event, answered, ↓reduceIte, answeredTerm]

/-- A granted response of a run is a vote in the run of the node that sent it. The network
makes up no messages, so the packet was sent by a step of the voter. -/
theorem RunOf.granted_of_response {cluster : Cluster Node} {trace : List (ClusterStep Node)}
    {s : NetState Node (RaftServer Node) (Event Node) Message} (run : RunOf cluster trace s)
    {self elector : Node} {t : Step Node} (member : t ∈ serverTrace self trace)
    {r : MsgRequestvoteResponse} {term : Int}
    (response : t.event = .recvRequestvoteResponse elector r term) (granted : r.voteGranted = 1) :
    .granted term self ∈ votes (serverTrace elector trace) := by
  rcases (protocol Node).origin_of_mem_localTrace rfl run self t member with own |
    ⟨packet, choice, dst, received, emitted⟩
  · rw [response] at own
    cases own
  · rw [response] at received
    obtain ⟨src, msg, answers⟩ := receive_eq_voteResponse received
    obtain ⟨sender, senderMember, cause, sent⟩ := sent_of_emitted emitted
    rw [src] at senderMember
    rw [dst, msg] at sent
    have vote := granted_mem_votes (RunOf.server run elector) senderMember sent granted
    rwa [cause, answers] at vote

/-- A vote of the term, for the candidate or by the candidate itself. -/
def VotedFor (trace : List (ClusterStep Node)) (term : Int) (candidate elector : Node) : Prop :=
  (elector = candidate ∧ .stood term ∈ votes (serverTrace elector trace)) ∨
    .granted term candidate ∈ votes (serverTrace elector trace)

/-- A leader has a majority of distinct electors that voted for it in its term: those of its
own run, each of which is a vote at its sender. -/
theorem RunOf.electors_of_leader [Fintype Node] {cluster : Cluster Node}
    {trace : List (ClusterStep Node)}
    {s : NetState Node (RaftServer Node) (Event Node) Message} (run : RunOf cluster trace s)
    (current : ∀ self, ∀ t ∈ serverTrace self trace, BallotsCurrent t.before t.event)
    (notHalf : ∀ self, ∀ t ∈ serverTrace self trace, NotHalf t.before t.event)
    {self : Node} (leads : (s.node self).state = .leader) :
    ∃ electors : Finset Node, Fintype.card Node < 2 * electors.card ∧
      ∀ elector ∈ electors, VotedFor trace (s.node self).currentTerm self elector := by
  have serverRun := RunOf.server run self
  have config := RunFrom.sameConfig serverRun
  obtain ⟨electors, elected⟩ :=
    (RunFrom.standing (cluster.own self) serverRun (current self) (notHalf self)).leader leads
  refine ⟨electors.toFinset, ?_, ?_⟩
  · rw [List.toFinset_card_of_nodup elected.distinct, ← cluster.length_nodes self]
    have majority := elected.majority
    rw [NodeTable.count, config.nodes] at majority
    exact majority
  · intro elector member
    rcases elected.voted elector (List.mem_toFinset.mp member) with
      ⟨own, stood⟩ | ⟨t, inTrace, r, response, granted⟩
    · left
      rw [config.thisNode] at own
      have same : elector = self := Option.some.inj (own.trans (cluster.own self))
      subst same
      exact ⟨rfl, stood⟩
    · exact Or.inr (RunOf.granted_of_response run inTrace response granted)

/-- A node with ordered votes votes for one candidate in a term. -/
theorem VotedFor.unique {trace : List (ClusterStep Node)} {term : Int}
    {first second elector : Node}
    (order : (votes (serverTrace elector trace)).Pairwise Vote.Before)
    (left : VotedFor trace term first elector) (right : VotedFor trace term second elector) :
    first = second := by
  rcases left with ⟨rfl, stood⟩ | granted
  · rcases right with ⟨same, -⟩ | granted
    · exact same
    · cases Vote.eq_of_term_eq order stood granted rfl
  · rcases right with ⟨rfl, stood⟩ | granted'
    · cases Vote.eq_of_term_eq order stood granted rfl
    · exact (Vote.granted.inj (Vote.eq_of_term_eq order granted granted' rfl)).2

/-- In every run of a cluster in which each server votes upward, counts current ballots only and
never counts exactly half the nodes, two leaders of one term are the same server. -/
theorem one_leader_per_term [Fintype Node] (cluster : Cluster Node)
    (trace : List (ClusterStep Node))
    (s : NetState Node (RaftServer Node) (Event Node) Message) (run : RunOf cluster trace s)
    (upward : ∀ self, Along VotesUpward (serverTrace self trace))
    (current : ∀ self, ∀ t ∈ serverTrace self trace, BallotsCurrent t.before t.event)
    (notHalf : ∀ self, ∀ t ∈ serverTrace self trace, NotHalf t.before t.event)
    (first second : Node) (firstLeads : (s.node first).state = .leader)
    (secondLeads : (s.node second).state = .leader)
    (sameTerm : (s.node first).currentTerm = (s.node second).currentTerm) : first = second := by
  obtain ⟨left, leftMajority, leftVoted⟩ :=
    RunOf.electors_of_leader run current notHalf firstLeads
  obtain ⟨right, rightMajority, rightVoted⟩ :=
    RunOf.electors_of_leader run current notHalf secondLeads
  obtain ⟨elector, common⟩ : (left ∩ right).Nonempty := by
    apply Finset.inter_nonempty_of_card_lt_card_add_card (Finset.subset_univ left)
      (Finset.subset_univ right)
    rw [Finset.card_univ]
    omega
  obtain ⟨inLeft, inRight⟩ := Finset.mem_inter.mp common
  have order := RunFrom.votes_pairwise (RunOf.server run elector) (upward elector)
  have leftVote := leftVoted elector inLeft
  rw [sameTerm] at leftVote
  exact leftVote.unique order (rightVoted elector inRight)

/-- A node stands for election and has the vote of the first node it asks. -/
def oneElection {n : ℕ} (candidate : Fin n) :
    List (NetEvent (Fin n) (Event (Fin n)) (Bool × Int × Int)) :=
  [electionAt candidate, deliverAt 0, deliverAt 1]

/-- In a cluster of three one server is elected, and no other leads in its term. -/
theorem one_leader_per_term_of_three :
    ((clusterState (oneElection (0 : Fin 3))).node 0).state = .leader ∧
      ∀ other, ((clusterState (oneElection (0 : Fin 3))).node other).state = .leader →
        ((clusterState (oneElection (0 : Fin 3))).node 0).currentTerm =
          ((clusterState (oneElection (0 : Fin 3))).node other).currentTerm →
        0 = other :=
  ⟨by decide, fun other => one_leader_per_term (ofMembers 3) _ _
    (run_traceOf (protocol (Fin 3)).network _ (oneElection 0) (by decide)) (by decide) (by decide)
    (by decide) 0 other (by decide)⟩

/-- Two nodes stand for election in term 1, and a third one grants both. -/
def twoElections {n : ℕ} (first second : Fin n) :
    List (NetEvent (Fin n) (Event (Fin n)) (Bool × Int × Int)) :=
  [electionAt first, electionAt second, deliverAt 0, deliverAt 2, deliverAt 2, deliverAt 2]

/-- Two leaders of term 1. -/
theorem two_leaders_in_one_term :
    RunOf (ofMembers 3) (clusterTrace (twoElections 0 2)) (clusterState (twoElections 0 2)) ∧
      ((clusterState (twoElections (0 : Fin 3) 2)).node 0).state = .leader ∧
      ((clusterState (twoElections (0 : Fin 3) 2)).node 2).state = .leader ∧
      ((clusterState (twoElections (0 : Fin 3) 2)).node 0).currentTerm =
        ((clusterState (twoElections (0 : Fin 3) 2)).node 2).currentTerm :=
  ⟨run_traceOf _ _ _ (by decide), by decide, by decide, by decide⟩

end Cluster

end CppRaft
