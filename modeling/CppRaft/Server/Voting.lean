import Mathlib.Data.List.Pairwise
import CppRaft.Server.Application

/-!
# The votes of one server

A server votes when it grants a request and when it stands for election. The
memory of a vote is not kept with its term: a request of a later term clears it and
leaves the current term as it was, and so do becoming follower and becoming leader.
Where every vote is nevertheless cast in a later term than the one before, or
repeats it, there is one vote in each term.
-/

namespace CppRaft

open Machine

/-- A vote, granted to a node or cast for oneself. -/
inductive Vote (Node : Type) where
  | granted (term : Int) (node : Node)
  | stood (term : Int)
  deriving DecidableEq, Repr

namespace Vote

variable {Node : Type}

/-- The term a vote is cast in. -/
def term : Vote Node → Int
  | granted term _ => term
  | stood term => term

/-- A vote may follow another: it is cast in a later term or grants the same again. -/
def Before (earlier later : Vote Node) : Prop :=
  earlier.term < later.term ∨ (earlier = later ∧ ∃ term node, later = granted term node)

/-- The order of votes is transitive. -/
theorem Before.trans {first second third : Vote Node} (left : Before first second)
    (right : Before second third) : Before first third := by
  rcases left with rises | ⟨rfl, -⟩
  · rcases right with again | ⟨rfl, -⟩
    · exact Or.inl (Int.lt_trans rises again)
    · exact Or.inl rises
  · exact right

/-- A list of votes stays in order when the next one may follow the last: the order is
transitive. -/
theorem pairwise_concat {votes : List (Vote Node)} {vote : Vote Node}
    (order : votes.Pairwise Before) (next : ∀ last ∈ votes.getLast?, Before last vote) :
    (votes ++ [vote]).Pairwise Before := by
  rw [List.pairwise_append]
  refine ⟨order, List.pairwise_singleton _ _, ?_⟩
  intro earlier member later same
  obtain rfl := List.mem_singleton.mp same
  rcases List.eq_nil_or_concat votes with rfl | ⟨front, last, rfl⟩
  · cases member
  · rw [List.concat_eq_append] at order member next
    have follows := next last (by simp)
    rcases List.mem_append.mp member with inFront | isLast
    · have ordered := (List.pairwise_append.mp order).2.2 earlier inFront last (by simp)
      exact ordered.trans follows
    · obtain rfl := List.mem_singleton.mp isLast
      exact follows

/-- Votes of one term in an ordered list are the same granted vote, since a vote may only
follow one of its term by repeating it. -/
theorem eq_of_term_eq {votes : List (Vote Node)} (order : votes.Pairwise Before)
    {first second : Vote Node} (firstCast : first ∈ votes) (secondCast : second ∈ votes)
    (sameTerm : first.term = second.term) : first = second := by
  have either : votes.Pairwise fun u v => Before u v ∨ Before v u :=
    order.imp fun before => Or.inl before
  by_contra different
  have symmetric : Std.Symm fun u v : Vote Node => Before u v ∨ Before v u :=
    ⟨fun _ _ => Or.symm⟩
  rcases either.forall firstCast secondCast different with before | before
  · rcases before with rises | ⟨same, -⟩
    · exact absurd sameTerm (Int.ne_of_lt rises)
    · exact different same
  · rcases before with rises | ⟨same, -⟩
    · exact absurd sameTerm.symm (Int.ne_of_lt rises)
    · exact different same.symm

end Vote

namespace RaftServer

variable {Node : Type} [DecidableEq Node]

/-- The emissions answer a node with `vote_granted` one. -/
def grantedTo (node : Node) (emitted : List (Action Node)) : Bool :=
  emitted.any fun action =>
    match action with
    | .send receiver (.requestvoteResponse r) => decide (receiver = node ∧ r.voteGranted = 1)
    | _ => false

/-- The vote a step casts: a request answered with a granted vote, or an election started. -/
def voteOf (t : Step Node) : Option (Vote Node) :=
  match t.event with
  | .recvRequestvote node vr =>
      if grantedTo node t.emitted then some (.granted vr.term node) else none
  | .periodic _ _ =>
      if t.after.state = .candidate ∧ t.before.currentTerm < t.after.currentTerm then
        some (.stood t.after.currentTerm)
      else none
  | _ => none

/-- The votes of a run in order. -/
def votes (trace : List (Step Node)) : List (Vote Node) :=
  trace.filterMap voteOf

/-- Votes are collected step by step. -/
theorem votes_append_singleton (trace : List (Step Node)) (t : Step Node) :
    votes (trace ++ [t]) = votes trace ++ (voteOf t).toList := by
  unfold votes
  rw [List.filterMap_append]
  cases cast : voteOf t <;> simp [cast]

/-- A request that passes the tests of `recv_requestvote`, and an election the timer starts,
concern a later term than the last vote of the run, or repeat it. -/
def VotesUpward (past : List (Step Node)) (t : Step Node) : Prop :=
  match t.event with
  | .recvRequestvote node vr =>
      grantsVote vr t.before →
        ∀ last ∈ (votes past).getLast?, last.term < vr.term ∨ last = .granted vr.term node
  | .periodic msec rand =>
      t.before.startsElection msec = true →
        ∀ last ∈ (votes past).getLast?,
          last.term < t.before.currentTerm + t.before.termIncrement rand.1
  | _ => True

instance (past : List (Step Node)) (t : Step Node) : Decidable (VotesUpward past t) := by
  obtain ⟨before, event, after, emitted⟩ := t
  cases_type Event <;> dsimp only [VotesUpward] <;> infer_instance

/-- A vote is granted by the reply that says so. -/
theorem grantedTo_voteReply (node : Node) (vr : MsgRequestvote) (s : RaftServer Node) :
    grantedTo node (voteReply node vr s) = true ↔ s.callbacks.send = true ∧ grantsVote vr s := by
  unfold grantedTo voteReply sends
  by_cases grants : grantsVote vr s <;> cases s.callbacks.send <;> simp [grants]

/-- Only a request is answered with a vote, and only its sender. -/
theorem StepResult.event_of_voteResponse {s : RaftServer Node} {event : Event Node}
    {effect : Effect (RaftServer Node) (Action Node)} (result : StepResult s event effect)
    (idle : s.hasPendingEntry = false) {node : Node} {r : MsgRequestvoteResponse}
    (sent : .send node (.requestvoteResponse r) ∈ effect.emitted) :
    ∃ vr, event = .recvRequestvote node vr := by
  have sends := result.sends idle sent
  generalize effect.state = after at sends
  cases sends with
  | vote => exact ⟨_, rfl⟩

/-- The vote a step casts may follow the last one: it is of a later term, or it is the vote
that the server remembers. -/
theorem StepResult.vote_before {past : List (Step Node)} {s : RaftServer Node}
    {event : Event Node} {effect : Effect (RaftServer Node) (Action Node)}
    (result : StepResult s event effect) (idle : s.hasPendingEntry = false)
    (upward : VotesUpward past ⟨s, event, effect.state, effect.emitted⟩) :
    ∀ vote ∈ voteOf ⟨s, event, effect.state, effect.emitted⟩,
      ∀ last ∈ (votes past).getLast?, Vote.Before last vote := by
  intro vote cast last final
  cases result with
  | requestvote node vr =>
      simp only [voteOf] at cast
      split at cast
      · rename_i granted
        obtain rfl := Option.some.inj cast
        have grants := ((grantedTo_voteReply node vr s).mp granted).2
        rcases upward grants last final with rises | same
        · exact Or.inl rises
        · exact Or.inr ⟨same, vr.term, node, rfl⟩
      · cases cast
  | timer timed =>
      cases timed with
      | waited _ => simp [voteOf] at cast
      | heartbeat leads => simp [voteOf] at cast
      | stood due =>
          simp only [voteOf] at cast
          split at cast
          · obtain rfl := Option.some.inj cast
            exact Or.inl (upward due last final)
          · cases cast
  | pending due _ _ =>
      rw [idle] at due
      cases due
  | appendentries _ => cases cast
  | appendentriesResponse _ => cases cast
  | requestvoteResponse _ _ => cases cast
  | refusedEntry _ _ => cases cast
  | appendedEntry _ _ => cases cast

/-- The votes of a run that only votes upward are in order, by induction on the run. -/
theorem RunFrom.votes_pairwise {config : Config Node} {trace : List (Step Node)}
    {s : RaftServer Node} (run : RunFrom config trace s) (upward : Along VotesUpward trace) :
    (votes trace).Pairwise Vote.Before := by
  apply run.invariant_along (fun trace _ => (votes trace).Pairwise Vote.Before) ?_ ?_ upward
  · exact List.Pairwise.nil
  · intro trace s event effect reached order stepped upward
    have next := (step_result stepped).vote_before
      (RunFrom.hasPendingEntry_eq_false reached) upward
    rw [votes_append_singleton]
    cases cast : voteOf ⟨s, event, effect.state, effect.emitted⟩ with
    | none =>
        rw [Option.toList_none, List.append_nil]
        exact order
    | some vote => exact Vote.pairwise_concat order (next vote cast)

/-- In every run that only votes upward, the requests of a term that were granted came from one
node, and none was granted in a term the server stood in. -/
theorem one_vote_per_term (config : Config Node) (trace : List (Step Node))
    (s : RaftServer Node) (run : RunFrom config trace s) (upward : Along VotesUpward trace)
    (term : Int) :
    (∀ node node', .granted term node ∈ votes trace → .granted term node' ∈ votes trace →
      node = node') ∧
    (.stood term ∈ votes trace → ∀ node, .granted term node ∉ votes trace) := by
  have order := RunFrom.votes_pairwise run upward
  refine ⟨fun node node' first second => ?_, fun stood node granted => ?_⟩
  · have same := Vote.eq_of_term_eq order first second rfl
    exact (Vote.granted.inj same).2
  · have same := Vote.eq_of_term_eq order stood granted rfl
    cases same

/-- Two requests of term 5. -/
def twoRequests (first second : Node) : List (Event Node) :=
  [.recvRequestvote first ⟨5, 0, 1, 0⟩, .recvRequestvote second ⟨5, 0, 1, 0⟩]

/-- Requests of two terms, the second repeated. -/
def risingRequests (first second : Node) : List (Event Node) :=
  [.recvRequestvote first ⟨5, 0, 1, 0⟩, .recvRequestvote second ⟨6, 0, 1, 0⟩,
    .recvRequestvote second ⟨6, 0, 1, 0⟩]

/-- A member that is asked in rising terms votes for one candidate in each. -/
theorem one_vote_per_term_of_member :
    votes (traceOn (0 : Fin 3) (risingRequests 1 2)) = [.granted 5 1, .granted 6 2, .granted 6 2] ∧
      ∀ node node', .granted 6 node ∈ votes (traceOn (0 : Fin 3) (risingRequests 1 2)) →
        .granted 6 node' ∈ votes (traceOn (0 : Fin 3) (risingRequests 1 2)) → node = node' :=
  ⟨by decide, (one_vote_per_term (.member 0) _ _
    (run_traceOf (machine (Fin 3)) _ (risingRequests 1 2) (by decide)) (by decide) 6).1⟩

/-- Two nodes are granted the vote of term 5. -/
theorem two_votes_in_one_term :
    RunFrom (.member 0) (traceOn (0 : Fin 3) (twoRequests 1 2)) (stateOn 0 (twoRequests 1 2)) ∧
      .granted 5 1 ∈ votes (traceOn (0 : Fin 3) (twoRequests 1 2)) ∧
      .granted 5 2 ∈ votes (traceOn (0 : Fin 3) (twoRequests 1 2)) :=
  ⟨run_traceOf _ _ _ (by decide), by decide, by decide⟩

end RaftServer

end CppRaft
