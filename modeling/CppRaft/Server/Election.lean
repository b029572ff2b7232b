import CppRaft.Server.Ballot

/-!
# How a leader was elected

A leader has a majority of electors behind it: itself, if it still held its own vote
when it won, and nodes whose granted responses answer its term.
-/

namespace CppRaft

open Machine

namespace RaftServer

variable {Node : Type} [DecidableEq Node]

/-- The nodes whose votes `get_nvotes_for_me` counts. -/
def electors (s : RaftServer Node) : List Node :=
  s.table.nodes.filter (fun node => decide (countsVoteOf s node)) ++
    if s.votedFor = s.thisNode then s.thisNode.toList else []

/-- `get_nvotes_for_me` counts the electors of a server that knows its own node. -/
theorem length_electors {s : RaftServer Node} {self : Node} (own : s.thisNode = some self) :
    s.electors.length = s.getNvotesForMe := by
  have flagged : s.table.nodes.filter (fun node => decide (countsVoteOf s node)) =
      s.table.nodes.filter fun node =>
        some node ≠ s.thisNode ∧ (s.table.record node).votesForMe = 1 := by
    apply List.filter_congr
    intro node member
    simp [countsVoteOf, member]
  rw [electors, List.length_append, flagged, getNvotesForMe]
  by_cases voted : s.votedFor = s.thisNode
  · simp [voted, own]
  · simp [voted]

/-- No elector is counted twice. -/
theorem nodup_electors (s : RaftServer Node) : s.electors.Nodup := by
  refine List.nodup_append.mpr ⟨s.table.distinct.filter _, ?_, ?_⟩
  · split
    · cases s.thisNode <;> simp
    · exact List.nodup_nil
  · intro node member other same
    have counts := of_decide_eq_true (List.mem_filter.mp member).2
    split at same
    · intro equal
      rw [Option.mem_toList] at same
      exact counts.2.1 (by rw [equal]; exact same.symm)
    · cases same

/-- A granted response never makes the count of votes exactly half the number of nodes. -/
def NotHalf (s : RaftServer Node) : Event Node → Prop
  | .recvRequestvoteResponse node r _ =>
      r.voteGranted = 1 → s.state ≠ .leader →
        2 * (s.setVotesForMe node 1).getNvotesForMe ≠ s.table.count
  | _ => True

instance (s : RaftServer Node) (event : Event Node) : Decidable (NotHalf s event) := by
  cases_type Event <;> dsimp only [NotHalf] <;> infer_instance

/-- The test of `raft_votes_is_majority` on all nodes but one is met by half of them. -/
theorem count_le_of_raftVotesIsMajority {count nvotes : ℕ}
    (majority : raftVotesIsMajority ((count : Int) - 1) nvotes = true) : count ≤ 2 * nvotes := by
  unfold raftVotesIsMajority at majority
  split at majority
  · cases majority
  · rename_i bounded
    have threshold := of_decide_eq_true majority
    rw [Int.tdiv_eq_ediv_of_nonneg (by omega)] at threshold
    omega

/-- The electors of a leader and how each of them voted. -/
structure Elected (trace : List (Step Node)) (s : RaftServer Node) (electors : List Node) :
    Prop where
  distinct : electors.Nodup
  majority : s.table.count < 2 * electors.length
  voted : ∀ elector ∈ electors,
    (some elector = s.thisNode ∧ .stood s.currentTerm ∈ votes trace) ∨
      ∃ t ∈ trace, ∃ r, t.event = .recvRequestvoteResponse elector r s.currentTerm ∧
        r.voteGranted = 1

/-- A candidate has stood in its term, and a leader was elected in it. -/
structure Standing (trace : List (Step Node)) (s : RaftServer Node) : Prop where
  candidate : s.state = .candidate → .stood s.currentTerm ∈ votes trace
  leader : s.state = .leader → ∃ electors, Elected trace s electors

/-- A vote that was cast stays cast. -/
theorem mem_votes_append {trace : List (Step Node)} {vote : Vote Node}
    (cast : vote ∈ votes trace) (t : Step Node) : vote ∈ votes (trace ++ [t]) := by
  rw [votes_append_singleton]
  exact List.mem_append_left _ cast

/-- A leader that stays leader in its term keeps its electors. -/
theorem Elected.keep {trace : List (Step Node)} {s after : RaftServer Node}
    {electors : List Node} (elected : Elected trace s electors) (t : Step Node)
    (term : after.currentTerm = s.currentTerm) (same : SameConfig s after) :
    Elected (trace ++ [t]) after electors where
  distinct := elected.distinct
  majority := by
    rw [NodeTable.count, same.nodes]
    exact elected.majority
  voted elector member := by
    rw [term, same.thisNode]
    rcases elected.voted elector member with ⟨self, stood⟩ | ⟨u, inTrace, response⟩
    · exact Or.inl ⟨self, mem_votes_append stood t⟩
    · exact Or.inr ⟨u, List.mem_append_left _ inTrace, response⟩

/-- The response that completes a majority gives a candidate its electors: the flagged nodes
and itself, each of which voted for it in its term. -/
theorem Standing.elect {trace : List (Step Node)} {s after : RaftServer Node} {self node : Node}
    {r : MsgRequestvoteResponse} {answers : Int} {emitted : List (Action Node)}
    (standing : Standing trace s) (flags : FlagsAreBallots trace s)
    (own : s.thisNode = some self) (candidate : s.state = .candidate)
    (sameTerm : answers = s.currentTerm) (granted : r.voteGranted = 1)
    (majority : raftVotesIsMajority ((s.setVotesForMe node 1).table.count - 1)
      (s.setVotesForMe node 1).getNvotesForMe = true)
    (notHalf : 2 * (s.setVotesForMe node 1).getNvotesForMe ≠ s.table.count)
    (term : after.currentTerm = s.currentTerm) (same : SameConfig s after) :
    Elected (trace ++ [⟨s, .recvRequestvoteResponse node r answers, after, emitted⟩]) after
      (s.setVotesForMe node 1).electors where
  distinct := nodup_electors _
  majority := by
    rw [length_electors (show (s.setVotesForMe node 1).thisNode = some self from own)]
    have half := count_le_of_raftVotesIsMajority majority
    have count : after.table.count = s.table.count := by
      rw [NodeTable.count, same.nodes]
      rfl
    have unchanged : (s.setVotesForMe node 1).table.count = s.table.count := rfl
    omega
  voted elector member := by
    rw [term, same.thisNode]
    rcases List.mem_append.mp member with flagged | voted
    · have counts := of_decide_eq_true (List.mem_filter.mp flagged).2
      exact Or.inr (mem_ballots (flags.of_response granted candidate sameTerm term counts))
    · left
      split at voted
      · rw [Option.mem_toList] at voted
        exact ⟨voted.symm, mem_votes_append (standing.candidate candidate) _⟩
      · cases voted

/-- One step: whoever is a candidate afterwards has stood in its term, and whoever leads was
elected by this step or keeps its electors. -/
theorem Standing.step {trace : List (Step Node)} {s : RaftServer Node} {self : Node}
    {event : Event Node} {effect : Effect (RaftServer Node) (Action Node)}
    (standing : Standing trace s) (flags : FlagsAreBallots trace s)
    (own : s.thisNode = some self) (idle : s.hasPendingEntry = false)
    (result : StepResult s event effect) (current : BallotsCurrent s event)
    (notHalf : NotHalf s event) :
    Standing (trace ++ [⟨s, event, effect.state, effect.emitted⟩]) effect.state where
  candidate candidate := by
    cases result.activeAfter idle (Or.inr candidate) with
    | kept role term =>
        rw [term]
        exact mem_votes_append (standing.candidate (role ▸ candidate)) _
    | stood _ raised =>
        rw [votes_append_singleton]
        refine List.mem_append_right _ ?_
        simp [voteOf, candidate, raised]
    | elected _ leader _ _ _ =>
        rw [leader] at candidate
        cases candidate
  leader leads := by
    have same := result.sameConfig
    cases result.activeAfter idle (Or.inl leads) with
    | kept role term =>
        obtain ⟨electors, elected⟩ := standing.leader (role ▸ leads)
        exact ⟨electors, elected.keep _ term same⟩
    | stood candidate _ =>
        rw [candidate] at leads
        cases leads
    | elected undecided _ granted majority term =>
        obtain ⟨candidate, sameTerm⟩ := current granted undecided
        exact ⟨_, standing.elect flags own candidate sameTerm granted majority
          (notHalf granted undecided) term same⟩

/-- In every run with current ballots that never count exactly half the nodes, candidates have
stood and leaders were elected. -/
theorem RunFrom.standing {config : Config Node} {trace : List (Step Node)} {s : RaftServer Node}
    {self : Node} (own : config.thisNode = some self) (run : RunFrom config trace s)
    (current : ∀ t ∈ trace, BallotsCurrent t.before t.event)
    (notHalf : ∀ t ∈ trace, NotHalf t.before t.event) : Standing trace s := by
  induction run with
  | nil =>
      refine ⟨?_, ?_⟩
      · intro candidate
        cases candidate
      · intro leads
        cases leads
  | @snoc trace s event effect earlier stepped ih =>
      simp only [List.mem_append, List.mem_singleton, or_imp, forall_and, forall_eq]
        at current notHalf
      have thisNode : s.thisNode = some self := (RunFrom.sameConfig earlier).thisNode.trans own
      exact (ih current.1 notHalf.1).step (RunFrom.flagsAreBallots earlier current.1) thisNode
        (RunFrom.hasPendingEntry_eq_false earlier) (step_result stepped) current.2 notHalf.2

end RaftServer

end CppRaft
