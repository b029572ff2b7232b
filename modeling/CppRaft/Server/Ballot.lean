import Mathlib.Data.List.Induction
import CppRaft.Server.Voting

/-!
# The votes that elect a server

A granted response sets a flag on the node it comes from. The flags are not
cleared when an election starts, and responses are counted in any role and for any
election. Where granted responses reach a candidate only while they answer its
current term, and an election starts with no flag set, the flags are the votes of
the current candidacy.
-/

namespace CppRaft

open Machine

namespace RaftServer

variable {Node : Type}

/-- The step starts an election. -/
def isCandidacy (t : Step Node) : Bool :=
  decide (t.after.state = .candidate ∧ t.before.currentTerm < t.after.currentTerm)

/-- The node and the answered term of a granted response. -/
def ballotOf (t : Step Node) : Option (Node × Int) :=
  match t.event with
  | .recvRequestvoteResponse node r answers =>
      if r.voteGranted = 1 then some (node, answers) else none
  | _ => none

/-- The granted responses since the server last became candidate. -/
def ballots (trace : List (Step Node)) : List (Node × Int) :=
  trace.foldl (fun recent t => if isCandidacy t then [] else recent ++ (ballotOf t).toList) []

/-- The ballots of the current candidacy, step by step. -/
theorem ballots_append_singleton (trace : List (Step Node)) (t : Step Node) :
    ballots (trace ++ [t]) =
      if isCandidacy t then [] else ballots trace ++ (ballotOf t).toList := by
  simp [ballots, List.foldl_append]

/-- Ballots are granted responses of the run, with the term of the request that they answer. -/
theorem mem_ballots {trace : List (Step Node)} {node : Node} {term : Int}
    (member : (node, term) ∈ ballots trace) :
    ∃ t ∈ trace, ∃ r, t.event = .recvRequestvoteResponse node r term ∧ r.voteGranted = 1 := by
  induction trace using List.reverseRecOn with
  | nil => cases member
  | append_singleton trace t ih =>
      rw [ballots_append_singleton] at member
      split at member
      · cases member
      · rcases List.mem_append.mp member with old | new
        · obtain ⟨u, inTrace, found⟩ := ih old
          exact ⟨u, List.mem_append_left _ inTrace, found⟩
        · refine ⟨t, by simp, ?_⟩
          rw [Option.mem_toList, ballotOf] at new
          split at new
          · rename_i voter r answers event
            split at new
            · rename_i granted
              cases new
              exact ⟨r, event, granted⟩
            · cases new
          · cases new

/-- The node whose flag `get_nvotes_for_me` counts. -/
def countsVoteOf (s : RaftServer Node) (node : Node) : Prop :=
  node ∈ s.table.nodes ∧ some node ≠ s.thisNode ∧ (s.table.record node).votesForMe = 1

instance [DecidableEq Node] (s : RaftServer Node) (node : Node) : Decidable (countsVoteOf s node) :=
  inferInstanceAs (Decidable (_ ∧ _ ∧ _))

/-- A granted response reaches a server that has not yet won only as candidate and for its
current term, and an election starts with no flag set on another node. -/
def BallotsCurrent (s : RaftServer Node) : Event Node → Prop
  | .recvRequestvoteResponse _ r answers =>
      r.voteGranted = 1 → s.state ≠ .leader → s.state = .candidate ∧ answers = s.currentTerm
  | .periodic msec _ =>
      s.startsElection msec = true → ∀ node ∈ s.table.nodes, ¬countsVoteOf s node
  | _ => True

instance [DecidableEq Node] (s : RaftServer Node) (event : Event Node) :
    Decidable (BallotsCurrent s event) := by
  cases_type Event <;> dsimp only [BallotsCurrent] <;> infer_instance

/-- The flags of a candidate are votes of its candidacy. -/
def FlagsAreBallots (trace : List (Step Node)) (s : RaftServer Node) : Prop :=
  s.state = .candidate → ∀ node, countsVoteOf s node → (node, s.currentTerm) ∈ ballots trace

/-- A step that keeps the term of a candidate and raises no flag. -/
theorem FlagsAreBallots.keep {trace : List (Step Node)} {s after : RaftServer Node}
    {event : Event Node} {emitted : List (Action Node)} (flags : FlagsAreBallots trace s)
    (role : after.state = .candidate → s.state = .candidate ∧ after.currentTerm = s.currentTerm)
    (counted : ∀ node, countsVoteOf after node → countsVoteOf s node) :
    FlagsAreBallots (trace ++ [⟨s, event, after, emitted⟩]) after := by
  intro candidate node counts
  obtain ⟨stood, sameTerm⟩ := role candidate
  have noCandidacy : isCandidacy ⟨s, event, after, emitted⟩ = false := by
    simp [isCandidacy, sameTerm]
  rw [ballots_append_singleton, noCandidacy, sameTerm]
  exact List.mem_append_left _ (flags stood node (counted node counts))

/-- A step that touches neither the role, the term nor the flags. -/
theorem FlagsAreBallots.same {trace : List (Step Node)} {s after : RaftServer Node}
    {event : Event Node} {emitted : List (Action Node)} (flags : FlagsAreBallots trace s)
    (role : after.state = s.state) (term : after.currentTerm = s.currentTerm)
    (table : after.table = s.table) (self : after.thisNode = s.thisNode) :
    FlagsAreBallots (trace ++ [⟨s, event, after, emitted⟩]) after := by
  refine flags.keep (fun candidate => ⟨role ▸ candidate, term⟩) fun node counts => ?_
  rw [countsVoteOf, table, self] at counts
  exact counts

variable [DecidableEq Node]

/-- A vote counts because it was just set or because it counted before. -/
theorem countsVoteOf_setVotesForMe {s : RaftServer Node} {node other : Node} {vote : Int}
    (counts : countsVoteOf (s.setVotesForMe node vote) other) :
    (other = node ∧ vote = 1) ∨ countsVoteOf s other := by
  obtain ⟨member, notSelf, flag⟩ := counts
  by_cases same : other = node
  · subst same
    left
    simpa [setVotesForMe, NodeTable.update] using flag
  · right
    refine ⟨member, notSelf, ?_⟩
    simpa [setVotesForMe, NodeTable.update, same] using flag

/-- `set_next_idx` raises no flag. -/
theorem countsVoteOf_setNextIdx {s : RaftServer Node} {node other : Node} {idx : Int}
    (counts : countsVoteOf (s.setNextIdx node idx) other) : countsVoteOf s other := by
  rw [setNextIdx_eq] at counts
  obtain ⟨member, notSelf, flag⟩ := counts
  refine ⟨member, notSelf, ?_⟩
  simp only [setNextIdxOf] at flag
  split at flag <;> exact flag

/-- A candidate that handles a granted response of its term counts votes of its candidacy:
the flag that it sets is the ballot of this step. -/
theorem FlagsAreBallots.of_response {trace : List (Step Node)} {s after : RaftServer Node}
    {node : Node} {r : MsgRequestvoteResponse} {answers : Int} {emitted : List (Action Node)}
    (flags : FlagsAreBallots trace s) (granted : r.voteGranted = 1)
    (candidate : s.state = .candidate) (sameTerm : answers = s.currentTerm)
    (term : after.currentTerm = s.currentTerm) {voter : Node}
    (counts : countsVoteOf (s.setVotesForMe node 1) voter) :
    (voter, s.currentTerm) ∈
      ballots (trace ++ [⟨s, .recvRequestvoteResponse node r answers, after, emitted⟩]) := by
  have noCandidacy : isCandidacy ⟨s, .recvRequestvoteResponse node r answers, after, emitted⟩ =
      false := by
    simp [isCandidacy, term]
  rw [ballots_append_singleton, noCandidacy]
  rcases countsVoteOf_setVotesForMe counts with ⟨rfl, -⟩ | counted
  · refine List.mem_append_right _ ?_
    simp [ballotOf, granted, sameTerm]
  · exact List.mem_append_left _ (flags candidate voter counted)

/-- One step keeps the flags of a candidate votes of its candidacy. That an election starts
with no flag set has to be assumed in `BallotsCurrent`: `become_candidate` clears none. -/
theorem StepResult.flagsAreBallots {trace : List (Step Node)} {s : RaftServer Node}
    {event : Event Node} {effect : Effect (RaftServer Node) (Action Node)}
    (result : StepResult s event effect) (idle : s.hasPendingEntry = false)
    (current : BallotsCurrent s event) (flags : FlagsAreBallots trace s) :
    FlagsAreBallots (trace ++ [⟨s, event, effect.state, effect.emitted⟩]) effect.state := by
  cases result with
  | @appendentries asResponce node ae stack _ appended =>
      cases appended with
      | refused _ =>
          refine flags.keep (fun candidate => ?_) fun other counts => ?_
          · rw [← noticeLeader_state_of_active (Or.inr candidate)]
            exact ⟨candidate, noticeLeader_currentTerm _ _ _⟩
          · obtain ⟨elapsed, state, votedFor, noticed, -⟩ := noticeLeader_frame asResponce ae s
            rw [noticed] at counts
            exact counts
      | accepted _ _ _ _ _ _ _ _ _ =>
          intro candidate
          exact absurd (Or.inr candidate) (roleAfterAppend_not_active s)
  | appendentriesResponse responded =>
      cases responded with
      | failed _ => exact flags.same rfl rfl rfl rfl
      | succeeded _ _ _ _ _ committed =>
          obtain ⟨commit, last, rfl⟩ := committed.applied.frame
          exact flags.keep (fun candidate => ⟨candidate, rfl⟩) fun _ => countsVoteOf_setNextIdx
  | requestvote _ _ => exact flags.same rfl rfl rfl rfl
  | @requestvoteResponse node r answers _ ballot =>
      cases ballot with
      | ignored _ => exact flags.same rfl rfl rfl rfl
      | refused _ _ =>
          refine flags.keep (fun candidate => ⟨candidate, rfl⟩) fun other counts => ?_
          rcases countsVoteOf_setVotesForMe counts with ⟨-, one⟩ | counted
          · exact absurd one (by decide)
          · exact counted
      | counted undecided granted =>
          obtain ⟨stood, sameTerm⟩ := current granted undecided
          intro _ other counts
          refine flags.of_response granted stood sameTerm ?_ counts
          rfl
      | elected _ _ _ =>
          rw [becomeLeader_eq]
          intro candidate
          cases candidate
  | refusedEntry _ _ => exact flags.same rfl rfl rfl rfl
  | appendedEntry _ _ => exact flags.same rfl rfl rfl rfl
  | pending due _ _ =>
      rw [idle] at due
      cases due
  | timer timed =>
      cases timed with
      | waited _ => exact flags.same rfl rfl rfl rfl
      | heartbeat _ => exact flags.same rfl rfl rfl rfl
      | stood due =>
          intro _ node counts
          exact absurd counts (current due node counts.1)

/-- In every run whose ballots are current, the flags of a candidate are votes of its
candidacy. -/
theorem RunFrom.flagsAreBallots {config : Config Node} {trace : List (Step Node)}
    {s : RaftServer Node} (run : RunFrom config trace s)
    (current : ∀ t ∈ trace, BallotsCurrent t.before t.event) : FlagsAreBallots trace s := by
  apply run.invariant_along FlagsAreBallots ?_ ?_
    (along_of_forall (Q := fun t => BallotsCurrent t.before t.event) current)
  · intro candidate
    cases candidate
  · intro trace s event effect reached flags stepped current
    exact (step_result stepped).flagsAreBallots (RunFrom.hasPendingEntry_eq_false reached)
      current flags

/-- How a server comes to be candidate or leader after a step. -/
inductive ActiveAfter (s : RaftServer Node) :
    Event Node → RaftServer Node → Prop where
  | kept {event : Event Node} {after : RaftServer Node} (role : after.state = s.state)
      (term : after.currentTerm = s.currentTerm) : ActiveAfter s event after
  | stood {msec : Int} {rand : ℕ × ℕ} {after : RaftServer Node}
      (candidate : after.state = .candidate) (raised : s.currentTerm < after.currentTerm) :
      ActiveAfter s (.periodic msec rand) after
  | elected {node : Node} {r : MsgRequestvoteResponse} {answers : Int} {after : RaftServer Node}
      (undecided : s.state ≠ .leader) (leader : after.state = .leader)
      (granted : r.voteGranted = 1)
      (majority : raftVotesIsMajority ((s.setVotesForMe node 1).table.count - 1)
        (s.setVotesForMe node 1).getNvotesForMe = true)
      (term : after.currentTerm = s.currentTerm) :
      ActiveAfter s (.recvRequestvoteResponse node r answers) after

/-- A server is candidate or leader because it was, because it stood for election, or because a
granted response completed a majority. -/
theorem StepResult.activeAfter {s : RaftServer Node} {event : Event Node}
    {effect : Effect (RaftServer Node) (Action Node)} (result : StepResult s event effect)
    (idle : s.hasPendingEntry = false)
    (active : effect.state.state = .leader ∨ effect.state.state = .candidate) :
    ActiveAfter s event effect.state := by
  cases result with
  | @appendentries asResponce node ae stack _ appended =>
      cases appended with
      | refused _ =>
          exact .kept (noticeLeader_state_of_active active) (noticeLeader_currentTerm _ _ _)
      | accepted _ _ _ _ _ _ _ _ _ => exact absurd active (roleAfterAppend_not_active s)
  | appendentriesResponse responded =>
      cases responded with
      | failed _ => exact .kept rfl rfl
      | succeeded _ _ _ _ _ committed =>
          obtain ⟨commit, last, rfl⟩ := committed.applied.frame
          exact .kept rfl rfl
  | requestvote _ _ => exact .kept rfl rfl
  | requestvoteResponse _ ballot =>
      cases ballot with
      | ignored _ => exact .kept rfl rfl
      | refused _ _ => exact .kept rfl rfl
      | counted _ _ => exact .kept rfl rfl
      | elected undecided granted majority =>
          rw [becomeLeader_eq]
          exact .elected undecided rfl granted majority rfl
  | refusedEntry _ _ => exact .kept rfl rfl
  | appendedEntry _ _ => exact .kept rfl rfl
  | pending due _ _ =>
      rw [idle] at due
      cases due
  | @timer msec rand _ timed =>
      cases timed with
      | waited _ => exact .kept rfl rfl
      | heartbeat _ => exact .kept rfl rfl
      | stood _ =>
          have raised := s.termIncrement_pos rand.1
          exact .stood rfl (by simp only; omega)

/-- In every run whose ballots are current, a response makes a leader only of a candidate, and
every vote counted for it is a granted response that answers its current term and came after
it last became candidate. -/
theorem leader_is_elected_by_current_ballots (config : Config Node) (past : List (Step Node))
    (t : Step Node) (rest : List (Step Node)) (s : RaftServer Node)
    (run : RunFrom config (past ++ t :: rest) s)
    (current : ∀ u ∈ past ++ t :: rest, BallotsCurrent u.before u.event)
    (node : Node) (r : MsgRequestvoteResponse) (answers : Int)
    (responded : t.event = .recvRequestvoteResponse node r answers)
    (undecided : t.before.state ≠ .leader) (leads : t.after.state = .leader) :
    t.before.state = .candidate ∧
      ∀ voter, countsVoteOf (t.before.setVotesForMe node 1) voter →
        (voter, t.before.currentTerm) ∈ ballots (past ++ [t]) := by
  obtain ⟨earlier, stepped⟩ := run.at_split
  have flags := RunFrom.flagsAreBallots earlier fun u member =>
    current u (List.mem_append_left _ member)
  have active := (step_result stepped).activeAfter
    (RunFrom.hasPendingEntry_eq_false earlier) (Or.inl leads)
  have here := current t (List.mem_append_right _ List.mem_cons_self)
  rw [responded] at active here
  obtain ⟨granted, term⟩ : r.voteGranted = 1 ∧ t.after.currentTerm = t.before.currentTerm := by
    cases active with
    | kept role _ => exact absurd (role ▸ leads) undecided
    | elected _ _ granted _ term => exact ⟨granted, term⟩
  obtain ⟨candidate, sameTerm⟩ := here granted undecided
  refine ⟨candidate, fun voter counts => ?_⟩
  have ballot : (voter, t.before.currentTerm) ∈ ballots (past ++
      [⟨t.before, .recvRequestvoteResponse node r answers, t.after, t.emitted⟩]) :=
    flags.of_response granted candidate sameTerm term counts
  rwa [← responded] at ballot

/-- A candidate of three handles the response of a peer. -/
theorem response_defined : ((machine (Fin 3)).step (stateOn 0 [.periodic 1000 (0, 0)])
    (.recvRequestvoteResponse 1 ⟨0, 1⟩ 1)).isSome := by
  decide

/-- The candidate of three is elected by a ballot of its current candidacy. -/
theorem leader_of_three_is_elected_by_current_ballots :
    (transitionOf (machine (Fin 3)) _ _ response_defined).before.state = .candidate ∧
      ∀ voter, countsVoteOf
          ((transitionOf (machine (Fin 3)) _ _ response_defined).before.setVotesForMe 1 1) voter →
        (voter, 1) ∈ ballots (traceOn 0 [.periodic 1000 (0, 0)] ++
          [transitionOf (machine (Fin 3)) _ _ response_defined]) :=
  leader_is_elected_by_current_ballots (.member 0) _ _ [] _
    ((run_traceOf (machine (Fin 3)) _ [.periodic 1000 (0, 0)] (by decide)).snoc_transitionOf _
      response_defined) (by decide) 1 ⟨0, 1⟩ 1 rfl (by decide) (by decide)

/-- A candidate with one vote hears of a leader of its term and steps down; then a second vote
arrives. -/
def steppedDown (early late leader : Node) : List (Event Node) :=
  candidacy 1000 (0, 0) ⟨0, 1⟩ [early] ++
    [.recvAppendentries true leader (.new 1 0 2 0 0) (0, 0),
      .recvRequestvoteResponse late ⟨0, 1⟩ 1]

/-- A server that has stepped down handles a late response. -/
theorem late_response_defined : ((machine (Fin 5)).step (stateOn 0 (steppedDown 1 2 4))
    (.recvRequestvoteResponse 3 ⟨0, 1⟩ 1)).isSome := by
  decide

/-- A third vote of five makes a leader of that follower. -/
theorem follower_is_elected_by_late_ballots :
    RunFrom (.member 0)
        (traceOn 0 (steppedDown 1 2 4) ++
          [transitionOf (machine (Fin 5)) _ _ late_response_defined])
        (transitionOf (machine (Fin 5)) _ _ late_response_defined).after ∧
      (transitionOf (machine (Fin 5)) _ _ late_response_defined).before.state = .follower ∧
      (transitionOf (machine (Fin 5)) _ _ late_response_defined).after.state = .leader :=
  ⟨(run_traceOf (machine (Fin 5)) _ (steppedDown 1 2 4) (by decide)).snoc_transitionOf _ _,
    by decide, by decide⟩

end RaftServer

end CppRaft
