import Mathlib.Algebra.Ring.Parity
import Mathlib.Data.Fintype.Card
import CppRaft.Server.Election

/-!
# Winning sets of voters

A candidate wins with a majority of all nodes but one, the old leader. Where no node is
flagged as leader nobody is left out of the election, and the votes of half of the nodes
are enough to win. Two winning sets have a voter in common for every odd number of
nodes, and for no even one.
-/

namespace CppRaft

open Machine

namespace RaftServer

variable {Node : Type} [DecidableEq Node]

/-- A candidate that knows every node, with none flagged as leader and its own vote cast for
itself, wins by a response. -/
structure WinsBy (s : RaftServer Node) (node : Node) (r : MsgRequestvoteResponse) : Prop where
  complete : ∀ other, other ∈ s.table.nodes
  unflagged : ∀ other, (s.table.record other).isLeader = false
  candidate : s.state = .candidate
  voted : ∃ self, s.thisNode = some self ∧ s.votedFor = some self
  elected : (recvRequestvoteResponse node r s).state.state = .leader

/-- The set of nodes whose votes a response is counted with. -/
def voters (s : RaftServer Node) (node : Node) : Finset Node :=
  (s.setVotesForMe node 1).electors.toFinset

/-- A response that makes a candidate leader completes what it takes for a majority. -/
theorem majority_of_elected {s : RaftServer Node} {node : Node} {r : MsgRequestvoteResponse}
    (undecided : s.state ≠ .leader)
    (elected : (recvRequestvoteResponse node r s).state.state = .leader) :
    raftVotesIsMajority ((s.setVotesForMe node 1).table.count - 1)
      (s.setVotesForMe node 1).getNvotesForMe = true := by
  generalize result : recvRequestvoteResponse node r s = effect at elected
  cases result ▸ recvRequestvoteResponse_result node r s with
  | ignored leads => exact absurd leads undecided
  | refused _ _ => exact absurd elected undecided
  | counted _ _ => exact absurd elected undecided
  | elected _ _ majority => exact majority

/-- The votes that are counted are those of the voters, each once. -/
theorem card_voters {s : RaftServer Node} {self : Node} (own : s.thisNode = some self)
    (node : Node) : (s.voters node).card = (s.setVotesForMe node 1).getNvotesForMe := by
  rw [voters, List.toFinset_card_of_nodup (nodup_electors _)]
  exact length_electors own

/-- The candidate `self` of a cluster without a leader, when some nodes have voted for it. -/
def supported (nodes : List Node) (distinct : nodes.Nodup) (supporters : Finset Node)
    (self : Node) : RaftServer Node :=
  { (new : RaftServer Node) with
    state := .candidate
    table := ⟨nodes, distinct, fun node => { votesForMe := if node ∈ supporters then 1 else 0 }⟩
    votedFor := some self
    thisNode := some self }

/-- Any set of nodes with the candidate in it is the set of voters of some state: the bound
below is met. -/
theorem voters_supported {nodes : List Node} (distinct : nodes.Nodup)
    (complete : ∀ other, other ∈ nodes) {supporters : Finset Node} {self : Node}
    (member : self ∈ supporters) :
    (supported nodes distinct supporters self).voters self = supporters := by
  ext voter
  by_cases same : voter = self
  · simp [voters, electors, setVotesForMe, supported, same, member]
  · simp [voters, electors, setVotesForMe, NodeTable.update, supported, countsVoteOf, same,
      complete]

section Cluster

variable [Fintype Node]

/-- A server that knows every node has as many nodes as there are. -/
theorem count_eq_card {s : RaftServer Node} (complete : ∀ other, other ∈ s.table.nodes) :
    s.table.count = Fintype.card Node := by
  have everything : s.table.nodes.toFinset = Finset.univ :=
    Finset.eq_univ_iff_forall.mpr fun other => List.mem_toFinset.mpr (complete other)
  rw [NodeTable.count, ← List.toFinset_card_of_nodup s.table.distinct, everything,
    Finset.card_univ]

/-- At least half of the nodes vote for a winner. -/
theorem WinsBy.card_le {s : RaftServer Node} {node : Node} {r : MsgRequestvoteResponse}
    (wins : WinsBy s node r) : Fintype.card Node ≤ 2 * (s.voters node).card := by
  obtain ⟨self, own, -⟩ := wins.voted
  have undecided : s.state ≠ .leader := by
    rw [wins.candidate]
    decide
  have half := count_le_of_raftVotesIsMajority (majority_of_elected undecided wins.elected)
  have count : (s.setVotesForMe node 1).table.count = Fintype.card Node :=
    count_eq_card wins.complete
  rwa [count, ← card_voters own] at half

/-- Half of the nodes are enough for a candidate among them: the test compares with half of
the nodes without the candidate. -/
theorem winsBy_supported {nodes : List Node} (distinct : nodes.Nodup)
    (complete : ∀ other, other ∈ nodes) {supporters : Finset Node} {self : Node}
    (member : self ∈ supporters) (half : 2 * supporters.card = Fintype.card Node) :
    WinsBy (supported nodes distinct supporters self) self ⟨1, 1⟩ where
  complete := complete
  unflagged _ := rfl
  candidate := rfl
  voted := ⟨self, rfl, rfl⟩
  elected := by
    have votes := card_voters (s := supported nodes distinct supporters self) rfl self
    rw [voters_supported distinct complete member] at votes
    have count : ((supported nodes distinct supporters self).setVotesForMe self 1).table.count =
        Fintype.card Node := count_eq_card complete
    have positive := Finset.card_pos.mpr ⟨self, member⟩
    have majority : raftVotesIsMajority ((Fintype.card Node : Int) - 1) supporters.card = true := by
      rw [raftVotesIsMajority, if_neg (by omega), decide_eq_true_eq,
        Int.tdiv_eq_ediv_of_nonneg (by omega)]
      omega
    rw [recvRequestvoteResponse, if_neg nofun, if_pos rfl]
    simp only [count, ← votes, majority, ↓reduceIte, becomeLeader_eq]

/-- Any two winning sets of voters have a node in common if and only if the number of nodes is
odd. -/
theorem winning_voters_meet_iff (several : 2 ≤ Fintype.card Node) :
    (∀ (s s' : RaftServer Node) (node node' : Node) (r r' : MsgRequestvoteResponse),
        WinsBy s node r → WinsBy s' node' r' → (s.voters node ∩ s'.voters node').Nonempty) ↔
      Odd (Fintype.card Node) := by
  constructor
  · intro meet
    by_contra notOdd
    obtain ⟨half, twice⟩ := Nat.not_odd_iff_even.mp notOdd
    obtain ⟨supporters, -, size⟩ :=
      Finset.exists_subset_card_eq (s := (Finset.univ : Finset Node)) (n := half)
        (by rw [Finset.card_univ]; omega)
    have others : (supportersᶜ).card = half := by
      rw [Finset.card_compl]
      omega
    obtain ⟨self, member⟩ := Finset.card_pos.mp (show 0 < supporters.card by omega)
    obtain ⟨rival, apart⟩ := Finset.card_pos.mp (show 0 < (supportersᶜ).card by omega)
    have complete : ∀ other, other ∈ (Finset.univ : Finset Node).toList := by simp
    have distinct := Finset.nodup_toList (Finset.univ : Finset Node)
    have common := meet _ _ _ _ _ _
      (winsBy_supported distinct complete member (by omega))
      (winsBy_supported distinct complete apart (by omega))
    rw [voters_supported distinct complete member, voters_supported distinct complete apart,
      Finset.inter_compl] at common
    exact Finset.not_nonempty_empty common
  · rintro ⟨half, odd⟩ s s' node node' r r' wins wins'
    have first := wins.card_le
    have second := wins'.card_le
    refine Finset.inter_nonempty_of_card_lt_card_add_card (Finset.subset_univ _)
      (Finset.subset_univ _) ?_
    rw [Finset.card_univ]
    omega

end Cluster

/-- In a cluster of three, two candidates that win share a voter. -/
theorem winning_voters_meet_three :
    2 ≤ Fintype.card (Fin 3) ∧
      ∀ (s s' : RaftServer (Fin 3)) (node node' : Fin 3) (r r' : MsgRequestvoteResponse),
        WinsBy s node r → WinsBy s' node' r' → (s.voters node ∩ s'.voters node').Nonempty :=
  ⟨by decide, (winning_voters_meet_iff (by decide)).mpr ⟨1, rfl⟩⟩

/-- A member of a cluster whose election timer runs out. -/
def candidateOf {n : ℕ} (self : Fin n) : RaftServer (Fin n) :=
  stateOn self [.periodic 1000 (0, 0)]

/-- Two candidates of four nodes win in one term with one vote each besides their own. -/
theorem winners_without_common_voter :
    (∃ trace, RunFrom (.member 0) trace (candidateOf (0 : Fin 4))) ∧
      (∃ trace, RunFrom (.member 1) trace (candidateOf (1 : Fin 4))) ∧
      (candidateOf (0 : Fin 4)).currentTerm = (candidateOf (1 : Fin 4)).currentTerm ∧
      WinsBy (candidateOf (0 : Fin 4)) 2 ⟨1, 1⟩ ∧ WinsBy (candidateOf (1 : Fin 4)) 3 ⟨1, 1⟩ ∧
      (candidateOf (0 : Fin 4)).voters 2 ∩ (candidateOf (1 : Fin 4)).voters 3 = ∅ := by
  refine ⟨⟨_, run_traceOf (machine (Fin 4)) _ [.periodic 1000 (0, 0)] (by decide)⟩,
    ⟨_, run_traceOf (machine (Fin 4)) _ [.periodic 1000 (0, 0)] (by decide)⟩, by decide, ?_, ?_,
    by decide⟩
  · exact ⟨by decide, by decide, by decide, ⟨0, by decide, by decide⟩, by decide⟩
  · exact ⟨by decide, by decide, by decide, ⟨1, by decide, by decide⟩, by decide⟩

end RaftServer

end CppRaft
