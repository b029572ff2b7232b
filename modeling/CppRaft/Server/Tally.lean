import Mathlib.Data.Finset.Card
import CppRaft.Server.Election

/-!
# Counting the votes of a candidacy

The flag of a node holds its last response, and a majority is looked for when a granted
response arrives. Whatever is handled in between, as long as the candidate keeps its role
and its vote, it is elected when as many other nodes as half of the others, and at least
one, have granted it their vote and not withdrawn it. Of two nodes neither can be elected.
-/

namespace CppRaft

open Machine

namespace RaftServer

variable {Node : Type} [DecidableEq Node]

/-- The nodes whose last response is a granted one. -/
def grantersAfter (granters : Finset Node) : Event Node → Finset Node
  | .recvRequestvoteResponse node r _ =>
      if r.voteGranted = 1 then insert node granters else granters.erase node
  | _ => granters

/-- The nodes whose last response in a run is a granted one. -/
def granters (trace : List (Step Node)) : Finset Node :=
  trace.foldl (fun granters t => grantersAfter granters t.event) ∅

/-- The granters are collected step by step. -/
theorem granters_append_singleton (trace : List (Step Node)) (t : Step Node) :
    granters (trace ++ [t]) = grantersAfter (granters trace) t.event := by
  simp [granters, List.foldl_append]

/-- The other nodes whose votes are counted. -/
def supporters (s : RaftServer Node) : Finset Node :=
  (s.table.nodes.filter fun node => decide (countsVoteOf s node)).toFinset

/-- The supporters are the nodes whose vote is counted. -/
theorem mem_supporters {s : RaftServer Node} {node : Node} :
    node ∈ s.supporters ↔ countsVoteOf s node := by
  simp only [supporters, List.mem_toFinset, List.mem_filter, decide_eq_true_eq,
    and_iff_right_iff_imp]
  exact fun counts => counts.1

/-- `get_nvotes_for_me` of a server that has voted for itself. -/
theorem getNvotesForMe_eq {s : RaftServer Node} {self : Node} (own : s.thisNode = some self)
    (voted : s.votedFor = s.thisNode) : s.getNvotesForMe = s.supporters.card + 1 := by
  rw [← length_electors own, electors, List.length_append, supporters,
    List.toFinset_card_of_nodup (s.table.distinct.filter _)]
  simp [voted, own]

/-- A response of a node sets or clears its own flag and no other. -/
theorem supporters_setVotesForMe {s : RaftServer Node} {node : Node}
    (listed : node ∈ s.table.nodes) (other : some node ≠ s.thisNode) :
    (s.setVotesForMe node 1).supporters = insert node s.supporters ∧
      (s.setVotesForMe node 0).supporters = s.supporters.erase node := by
  constructor
  · ext voter
    rw [Finset.mem_insert, mem_supporters, mem_supporters]
    by_cases same : voter = node
    · subst same
      simp [countsVoteOf, setVotesForMe, NodeTable.update, listed, other]
    · simp [countsVoteOf, setVotesForMe, NodeTable.update, same]
  · ext voter
    rw [Finset.mem_erase, mem_supporters, mem_supporters]
    by_cases same : voter = node
    · subst same
      simp [countsVoteOf, setVotesForMe, NodeTable.update]
    · simp [countsVoteOf, setVotesForMe, NodeTable.update, same]

/-- `set_next_idx` leaves the flags alone. -/
theorem supporters_setNextIdxOf (nodes : List Node) (idx : Int) (s : RaftServer Node) :
    { s with table := setNextIdxOf nodes idx s.table }.supporters = s.supporters := by
  ext voter
  rw [mem_supporters, mem_supporters]
  by_cases member : voter ∈ nodes <;> simp [countsVoteOf, setNextIdxOf, member]

/-- The response that an event brings. -/
def response? : Event Node → Option (Node × MsgRequestvoteResponse)
  | .recvRequestvoteResponse node r _ => some (node, r)
  | _ => none

/-- Only responses touch the flags: the set of supporters changes by the node that responds. -/
theorem StepResult.supporters_eq {s : RaftServer Node} {event : Event Node}
    {effect : Effect (RaftServer Node) (Action Node)} (result : StepResult s event effect)
    (idle : s.hasPendingEntry = false) (silent : response? event = none) :
    effect.state.supporters = s.supporters := by
  cases result with
  | @appendentries asResponce node ae stack _ appended =>
      cases appended with
      | refused _ =>
          obtain ⟨elapsed, state, votedFor, noticed, -⟩ := noticeLeader_frame asResponce ae s
          rw [noticed]
          rfl
      | accepted _ _ _ _ _ _ _ _ _ => rfl
  | appendentriesResponse responded =>
      cases responded with
      | failed _ => rfl
      | succeeded _ _ _ _ _ committed =>
          obtain ⟨commit, last, rfl⟩ := committed.applied.frame
          rw [setNextIdx_eq]
          exact supporters_setNextIdxOf _ _ s
  | requestvote _ _ => rfl
  | requestvoteResponse _ _ => cases silent
  | refusedEntry _ _ => rfl
  | appendedEntry _ _ => rfl
  | pending due _ _ =>
      rw [idle] at due
      cases due
  | timer timed => cases timed <;> rfl

/-- What `raft_votes_is_majority` asks of the number of other nodes that support a candidate. -/
theorem raftVotesIsMajority_iff {count supporters : ℕ} (nonempty : 0 < count) :
    raftVotesIsMajority ((count : Int) - 1) ((supporters + 1 : ℕ) : Int) = true ↔
      (count - 1) / 2 ≤ supporters ∧ supporters + 2 ≤ count := by
  unfold raftVotesIsMajority
  rw [Int.tdiv_eq_ediv_of_nonneg (by omega)]
  split
  · simp only [Bool.false_eq_true, false_iff]
    omega
  · rw [decide_eq_true_iff]
    omega

/-- The other nodes that have to support a candidate among `count` nodes. -/
def neededOf (count : ℕ) : ℕ :=
  max 1 ((count - 1) / 2)

/-- A candidate that has voted for itself, with the flags that its responses have left. -/
structure Campaign (start : RaftServer Node) (me : Node) (trace : List (Step Node))
    (s : RaftServer Node) : Prop where
  candidate : s.state = .candidate
  own : s.thisNode = some me
  voted : s.votedFor = s.thisNode
  nodes : s.table.nodes = start.table.nodes
  flags : s.supporters = granters trace

/-- The candidate keeps its role and its vote, or is elected. -/
def Stands (t : Step Node) : Prop :=
  t.before.state = .candidate → t.after.state ≠ .leader →
    t.after.state = .candidate ∧ t.after.votedFor = t.before.votedFor

instance (t : Step Node) : Decidable (Stands t) :=
  inferInstanceAs (Decidable (_ → _ → _ ∧ _))

/-- The tally goes on after a step that does not elect the candidate. -/
theorem Campaign.next {start : RaftServer Node} {me : Node} {trace : List (Step Node)}
    {s : RaftServer Node} {event : Event Node} {effect : Effect (RaftServer Node) (Action Node)}
    (campaign : Campaign start me trace s) (config : SameConfig s effect.state)
    (stands : Stands ⟨s, event, effect.state, effect.emitted⟩)
    (undecided : effect.state.state ≠ .leader)
    (flags : effect.state.supporters = grantersAfter (granters trace) event) :
    Campaign start me (trace ++ [⟨s, event, effect.state, effect.emitted⟩]) effect.state := by
  obtain ⟨candidate, voted⟩ := stands campaign.candidate undecided
  refine ⟨candidate, config.thisNode.trans campaign.own, ?_, config.nodes.trans campaign.nodes, ?_⟩
  · rw [config.thisNode, ← campaign.voted]
    exact voted
  · rw [flags, granters_append_singleton]

/-- A call that brings no response does not elect a candidate, and leaves the flags of its
responses as they are. -/
theorem Campaign.of_silent {start : RaftServer Node} {me : Node} {trace : List (Step Node)}
    {s : RaftServer Node} {event : Event Node} {effect : Effect (RaftServer Node) (Action Node)}
    (campaign : Campaign start me trace s) (result : StepResult s event effect)
    (silent : response? event = none) :
    effect.state.state ≠ .leader ∧
      effect.state.supporters = grantersAfter (granters trace) event := by
  have idle : s.hasPendingEntry = false := by simp [hasPendingEntry, campaign.candidate]
  constructor
  · intro leads
    cases result.activeAfter idle (Or.inl leads) with
    | kept role _ =>
        rw [role, campaign.candidate] at leads
        cases leads
    | stood candidate _ =>
        rw [candidate] at leads
        cases leads
    | elected _ _ _ _ _ => cases silent
  · rw [result.supporters_eq idle silent, campaign.flags]
    cases event with
    | recvRequestvoteResponse node r answers => cases silent
    | _ => rfl

/-- A response elects a candidate exactly if it is granted and the others that then support the
candidate are a majority. -/
theorem Campaign.of_response {start : RaftServer Node} {me : Node} {trace : List (Step Node)}
    {s : RaftServer Node} (campaign : Campaign start me trace s) {node : Node}
    (r : MsgRequestvoteResponse) (answers : Int) (listed : node ∈ start.table.nodes)
    (other : node ≠ me) :
    let after := (recvRequestvoteResponse node r s).state
    let granted := grantersAfter (granters trace) (.recvRequestvoteResponse node r answers)
    (after.state = .leader ↔ r.voteGranted = 1 ∧
      (start.table.count - 1) / 2 ≤ granted.card ∧ granted.card + 2 ≤ start.table.count) ∧
    (after.state ≠ .leader → after.supporters = granted) := by
  have undecided : s.state ≠ .leader := by
    rw [campaign.candidate]
    decide
  rw [← campaign.nodes] at listed
  have foreign : some node ≠ s.thisNode := by
    rw [campaign.own]
    exact fun same => other (Option.some.inj same)
  obtain ⟨raised, cleared⟩ := supporters_setVotesForMe listed foreign
  rw [campaign.flags] at raised cleared
  have count : s.table.count = start.table.count := congrArg List.length campaign.nodes
  -- The test that follows a granted response.
  have test : raftVotesIsMajority ((s.setVotesForMe node 1).table.count - 1)
        (s.setVotesForMe node 1).getNvotesForMe = true ↔
      (start.table.count - 1) / 2 ≤ (insert node (granters trace)).card ∧
        (insert node (granters trace)).card + 2 ≤ start.table.count := by
    rw [getNvotesForMe_eq (s := s.setVotesForMe node 1) campaign.own campaign.voted, raised,
      ← count]
    exact raftVotesIsMajority_iff (List.length_pos_of_mem listed)
  simp only [recvRequestvoteResponse, if_neg undecided, grantersAfter]
  by_cases granted : r.voteGranted = 1
  · simp only [if_pos granted]
    by_cases majority : raftVotesIsMajority ((s.setVotesForMe node 1).table.count - 1)
        (s.setVotesForMe node 1).getNvotesForMe = true
    · rw [if_pos majority, becomeLeader_eq]
      exact ⟨iff_of_true rfl ⟨granted, test.mp majority⟩, fun not => absurd rfl not⟩
    · rw [if_neg majority]
      refine ⟨iff_of_false undecided fun wins => majority (test.mpr wins.2), fun _ => raised⟩
  · simp only [if_neg granted]
    exact ⟨iff_of_false undecided fun wins => granted wins.1, fun _ => cleared⟩

/-- The number of granters passes every number on its way up: the response with which it first
reaches what is needed finds a majority, unless there are only two nodes. -/
theorem majority_iff_needed {count : ℕ} {granted : Finset Node} {node : Node}
    {r : MsgRequestvoteResponse} (answers : Int)
    (short : 3 ≤ count → granted.card < neededOf count) :
    let after := grantersAfter granted (.recvRequestvoteResponse node r answers)
    (r.voteGranted = 1 ∧ (count - 1) / 2 ≤ after.card ∧ after.card + 2 ≤ count) ↔
      3 ≤ count ∧ neededOf count ≤ after.card := by
  simp only [grantersAfter]
  unfold neededOf at short ⊢
  by_cases vote : r.voteGranted = 1
  · have positive : 0 < (insert node granted).card :=
      Finset.card_pos.mpr ⟨node, Finset.mem_insert_self _ _⟩
    have most := Finset.card_insert_le node granted
    simp only [vote, ↓reduceIte, true_and]
    omega
  · have fewer : (granted.erase node).card ≤ granted.card := Finset.card_erase_le
    simp only [vote, ↓reduceIte, false_and, false_iff]
    omega

/-- There are at least three nodes, and after some part of the run enough of the others have
granted their vote in their last response. -/
def Enough (start : RaftServer Node) (trace : List (Step Node)) : Prop :=
  3 ≤ start.table.count ∧
    ∃ part, part <+: trace ∧ neededOf start.table.count ≤ (granters part).card

/-- One more step makes it enough or it was enough before. -/
theorem enough_append_singleton (start : RaftServer Node) (trace : List (Step Node))
    (t : Step Node) :
    Enough start (trace ++ [t]) ↔ Enough start trace ∨ 3 ≤ start.table.count ∧
      neededOf start.table.count ≤ (grantersAfter (granters trace) t.event).card := by
  have extended : ∀ part, part <+: trace ++ [t] ↔ part = trace ++ [t] ∨ part <+: trace :=
    fun part => List.prefix_concat_iff
  simp only [Enough, extended, or_and_right, exists_or, exists_eq_left, granters_append_singleton,
    and_or_left]
  exact or_comm

/-- What a run of calls has brought: the candidate was elected exactly if enough granted, and it
still counts its votes if it was not. -/
structure Counted (start : RaftServer Node) (me : Node) (trace : List (Step Node))
    (s : RaftServer Node) : Prop where
  decided : (∃ t ∈ trace, t.after.state = .leader) ↔ Enough start trace
  campaign : (∀ t ∈ trace, t.after.state ≠ .leader) → Campaign start me trace s

/-- Before the first vote nobody has granted and nobody is elected. -/
theorem Counted.nil {start : RaftServer Node} {me : Node} (candidate : start.state = .candidate)
    (own : start.thisNode = some me) (voted : start.votedFor = some me)
    (fresh : ∀ node ∈ start.table.nodes, ¬countsVoteOf start node) :
    Counted start me [] start where
  decided := by simp [Enough, granters, neededOf]
  campaign _ := by
    have none : start.supporters = ∅ := Finset.eq_empty_of_forall_notMem fun node supports =>
      fresh node (mem_supporters.mp supports).1 (mem_supporters.mp supports)
    exact ⟨candidate, own, voted.trans own.symm, rfl, none⟩

/-- A candidate that was not elected has not got enough. -/
theorem Counted.short {start : RaftServer Node} {me : Node} {trace : List (Step Node)}
    {s : RaftServer Node} (counted : Counted start me trace s)
    (before : ¬∃ t ∈ trace, t.after.state = .leader) (three : 3 ≤ start.table.count) :
    (granters trace).card < neededOf start.table.count := by
  by_contra enough
  exact before (counted.decided.mpr
    ⟨three, trace, List.prefix_refl _, Nat.not_lt.mp enough⟩)

/-- A step elects a candidate exactly if it makes the granters enough, and goes on with the tally
otherwise. -/
theorem Campaign.step {start : RaftServer Node} {me : Node} {trace : List (Step Node)}
    {s : RaftServer Node} {event : Event Node} {effect : Effect (RaftServer Node) (Action Node)}
    (campaign : Campaign start me trace s)
    (short : 3 ≤ start.table.count → (granters trace).card < neededOf start.table.count)
    (stepped : (machine Node).step s event = some effect)
    (stands : Stands ⟨s, event, effect.state, effect.emitted⟩)
    (peers : ∀ sent ∈ response? event, sent.1 ∈ start.table.nodes ∧ sent.1 ≠ me) :
    (effect.state.state = .leader ↔ 3 ≤ start.table.count ∧
      neededOf start.table.count ≤ (grantersAfter (granters trace) event).card) ∧
    (effect.state.state ≠ .leader →
      Campaign start me (trace ++ [⟨s, event, effect.state, effect.emitted⟩]) effect.state) := by
  have result := step_result stepped
  cases response : response? event with
  | none =>
      obtain ⟨undecided, flags⟩ := campaign.of_silent result response
      refine ⟨iff_of_false undecided ?_, fun _ =>
        campaign.next result.sameConfig stands undecided flags⟩
      rintro ⟨three, enough⟩
      have same : grantersAfter (granters trace) event = granters trace := by
        rw [← flags, result.supporters_eq (by simp [hasPendingEntry, campaign.candidate])
          response, campaign.flags]
      rw [same] at enough
      exact absurd (short three) (Nat.not_lt.mpr enough)
  | some sent =>
      obtain ⟨listed, other⟩ := peers sent response
      cases event with
      | recvRequestvoteResponse node r answers =>
          obtain rfl := Option.some.inj response
          obtain ⟨-, -, rfl⟩ := (Outcome.effect?_eq_some_iff
            (handle (.recvRequestvoteResponse node r answers) s) effect).mp stepped
          obtain ⟨wins, flags⟩ := campaign.of_response r answers listed other
          exact ⟨wins.trans (majority_iff_needed answers short), fun undecided =>
            campaign.next result.sameConfig stands undecided (flags undecided)⟩
      | _ => cases response

/-- One step keeps the count. Once the candidate was elected nothing more is to be shown,
and until then the response that makes the granters enough is the one that elects it. -/
theorem Counted.step {start : RaftServer Node} {me : Node} {trace : List (Step Node)}
    {s : RaftServer Node} {event : Event Node} {effect : Effect (RaftServer Node) (Action Node)}
    (counted : Counted start me trace s) (stepped : (machine Node).step s event = some effect)
    (stands : Stands ⟨s, event, effect.state, effect.emitted⟩)
    (peers : ∀ sent ∈ response? event, sent.1 ∈ start.table.nodes ∧ sent.1 ≠ me) :
    Counted start me (trace ++ [⟨s, event, effect.state, effect.emitted⟩]) effect.state := by
  by_cases before : ∃ t ∈ trace, t.after.state = .leader
  · -- it was elected earlier, and what was enough then is enough now
    refine ⟨iff_of_true ?_ ((enough_append_singleton _ _ _).mpr
      (.inl (counted.decided.mp before))), fun none => ?_⟩
    · obtain ⟨t, member, leads⟩ := before
      exact ⟨t, List.mem_append_left _ member, leads⟩
    · obtain ⟨t, member, leads⟩ := before
      exact absurd leads (none t (List.mem_append_left _ member))
  · have none : ∀ t ∈ trace, t.after.state ≠ .leader := fun t member leads =>
      before ⟨t, member, leads⟩
    obtain ⟨wins, goesOn⟩ :=
      (counted.campaign none).step (counted.short before) stepped stands peers
    constructor
    · rw [enough_append_singleton, ← counted.decided, ← wins]
      simp only [List.mem_append, List.mem_singleton, or_and_right, exists_or, exists_eq_left]
    · exact fun undecided => goesOn (undecided _ (List.mem_append_right _ List.mem_cons_self))

/-- A candidate that has voted for itself and has no supporters yet is elected in a sequence of
calls, as long as it keeps its role and its vote, exactly if there are at least three nodes and at
some point as many of the others as half of them, and at least one, have granted their vote in
their last response. Neither the order of the responses nor what is handled between them makes a
difference. -/
theorem elected_iff_enough_granters {start s : RaftServer Node} {trace : List (Step Node)}
    (run : (machine Node).Run start trace s) (me : Node) (candidate : start.state = .candidate)
    (own : start.thisNode = some me) (voted : start.votedFor = some me)
    (fresh : ∀ node ∈ start.table.nodes, ¬countsVoteOf start node)
    (stands : ∀ t ∈ trace, Stands t)
    (peers : ∀ t ∈ trace, ∀ sent ∈ response? t.event,
      sent.1 ∈ start.table.nodes ∧ sent.1 ≠ me) :
    (∃ t ∈ trace, t.after.state = .leader) ↔
      3 ≤ start.table.count ∧
        ∃ part, part <+: trace ∧ neededOf start.table.count ≤ (granters part).card := by
  have counted : Counted start me trace s := by
    apply run.invariant_along (P := fun _ t => Stands t ∧ ∀ sent ∈ response? t.event,
        sent.1 ∈ start.table.nodes ∧ sent.1 ≠ me) (Counted start me)
      (Counted.nil candidate own voted fresh) ?_
      (along_of_forall fun t member => ⟨stands t member, peers t member⟩)
    intro trace s event effect _ counted stepped keeps
    exact counted.step stepped keeps.1 keeps.2
  exact counted.decided

/-- A candidate of five is refused by one node and granted the votes of two, and handles a message
of an older term in between. -/
def threeResponses (first second third : Node) : List (Event Node) :=
  [.recvRequestvoteResponse first ⟨0, 0⟩ 1, .recvRequestvoteResponse second ⟨0, 1⟩ 1,
    .recvAppendentries true third (.new 0 0 0 0 0) (0, 0),
    .recvRequestvoteResponse third ⟨0, 1⟩ 1]

/-- A candidate of five is elected by two of three responses. -/
theorem candidate_of_five_is_elected :
    (∃ t ∈ traceOf (machine (Fin 5)) (stateOn 0 [.periodic 1000 (0, 0)]) (threeResponses 1 2 3),
      t.after.state = .leader) ∧ neededOf 5 = 2 :=
  ⟨(elected_iff_enough_granters
    (run_traceOf (machine (Fin 5)) (stateOn 0 [.periodic 1000 (0, 0)]) (threeResponses 1 2 3)
      (by decide)) 0 (by decide) (by decide) (by decide) (by decide) (by decide) (by decide)).mpr
    ⟨by decide, _, List.prefix_refl _, by decide⟩, by decide⟩

end RaftServer

end CppRaft
