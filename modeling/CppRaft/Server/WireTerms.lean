import CppRaft.Server.Ballot
import CppRaft.Server.TermOrder

/-!
# The terms a server puts on its messages

All messages of one step carry the same term: the term before the step, except that
the requests of a candidacy carry the term it raised. Along a run the terms on the
messages therefore follow the current term: they never fall and never pass it, and
no two candidacies ask for votes in one term.
-/

namespace CppRaft

open Machine

/-- The term that a message carries. -/
def Message.term? : Message → Option Int
  | .requestvote vr => some vr.term
  | .requestvoteResponse r => some r.term
  | .appendentries ae => some ae.term
  | .appendentriesPayload _ => none
  | .appendentriesResponse r => some r.term
  | .entryResponse _ => none

variable {Node : Type}

/-- The term on the message that an action sends. -/
def Action.term? : Action Node → Option Int
  | .send _ msg => msg.term?
  | .applylog _ _ => none
  | .appended _ => none

/-- The terms on the messages among some emissions, in order. -/
def sentTerms (emitted : List (Action Node)) : List Int :=
  emitted.filterMap Action.term?

/-- A term that is sent is on a message. -/
theorem mem_sentTerms {emitted : List (Action Node)} {term : Int} :
    term ∈ sentTerms emitted ↔ ∃ node msg, .send node msg ∈ emitted ∧ msg.term? = some term := by
  unfold sentTerms
  rw [List.mem_filterMap]
  constructor
  · rintro ⟨action, member, carries⟩
    cases action with
    | send node msg => exact ⟨node, msg, member, carries⟩
    | applylog _ _ => cases carries
    | appended _ => cases carries
  · rintro ⟨node, msg, member, carries⟩
    exact ⟨.send node msg, member, carries⟩

/-- Terms are collected action by action. -/
theorem sentTerms_append (first second : List (Action Node)) :
    sentTerms (first ++ second) = sentTerms first ++ sentTerms second :=
  List.filterMap_append

namespace RaftServer

/-- The answer to an AppendEntries message carries the term before it: the reply is filled
in before the term is taken over. -/
theorem AppendResult.sentTerms {asResponce : Bool} {node : Node} {ae : MsgAppendEntries}
    {stack : Int × Int} {s : RaftServer Node} {effect : Effect (RaftServer Node) (Action Node)}
    (appended : AppendResult asResponce node ae stack s effect) {term : Int}
    (member : term ∈ sentTerms effect.emitted) : term = s.currentTerm := by
  obtain ⟨peer, msg, sent, carries⟩ := mem_sentTerms.mp member
  cases appended with
  | refused _ =>
      obtain ⟨-, -, rfl⟩ := send_mem_sends.mp sent
      exact (Option.some.inj carries).symm
  | accepted _ _ _ _ _ _ _ _ advanced =>
      rcases List.mem_append.mp sent with early | late
      · exact absurd early (advanced.sound.send_not_mem _ _)
      · rcases List.mem_append.mp late with pushed | answered
        · obtain ⟨idx, -, other⟩ := List.mem_map.mp pushed
          cases other
        · obtain ⟨-, -, rfl⟩ := send_mem_sends.mp answered
          unfold answerTo at carries
          split at carries <;> exact (Option.some.inj carries).symm

variable [DecidableEq Node]

/-- The messages that follow the treatment of a client entry carry the current term. -/
theorem sentTerms_entryActions {client : Node} {id : UInt32} {result : Int}
    {s : RaftServer Node} {term : Int}
    (member : term ∈ sentTerms (entryActions client id result s)) :
    term = s.currentTerm := by
  obtain ⟨peer, msg, sent, carries⟩ := mem_sentTerms.mp member
  obtain ⟨-, rfl⟩ | rfl := send_mem_entryActions sent
  · cases carries
  · exact (Option.some.inj carries).symm

/-- The messages of one step carry one term, that before or that after the step, and never
both. -/
theorem StepResult.sentTerms {s : RaftServer Node} {event : Event Node}
    {effect : Effect (RaftServer Node) (Action Node)} (result : StepResult s event effect)
    (idle : s.hasPendingEntry = false) :
    ∃ stamp, (stamp = s.currentTerm ∨ stamp = effect.state.currentTerm) ∧
      ∀ term ∈ CppRaft.sentTerms effect.emitted, term = stamp := by
  cases result with
  | appendentries appended => exact ⟨_, Or.inl rfl, fun term => appended.sentTerms⟩
  | appendentriesResponse responded =>
      refine ⟨s.currentTerm, Or.inl rfl, fun term member => ?_⟩
      obtain ⟨node, msg, sent, carries⟩ := mem_sentTerms.mp member
      cases responded with
      | failed _ =>
          obtain ⟨-, -, rfl⟩ := send_mem_sends.mp sent
          exact (Option.some.inj carries).symm
      | succeeded _ _ _ _ _ committed =>
          exact absurd sent (committed.applied.sound.send_not_mem _ _)
  | requestvote _ _ =>
      refine ⟨s.currentTerm, Or.inl rfl, fun term member => ?_⟩
      obtain ⟨node, msg, sent, carries⟩ := mem_sentTerms.mp member
      obtain ⟨-, -, rfl⟩ := send_mem_sends.mp sent
      exact (Option.some.inj carries).symm
  | requestvoteResponse _ ballot =>
      refine ⟨s.currentTerm, Or.inl rfl, fun term member => ?_⟩
      obtain ⟨node, msg, sent, carries⟩ := mem_sentTerms.mp member
      cases ballot with
      | ignored _ => cases sent
      | refused _ _ => cases sent
      | counted _ _ => cases sent
      | elected _ _ _ =>
          rw [becomeLeader_eq] at sent
          obtain ⟨-, -, rfl⟩ := send_mem_sends.mp sent
          exact (Option.some.inj carries).symm
  | refusedEntry _ _ => exact ⟨s.currentTerm, Or.inl rfl, fun term => sentTerms_entryActions⟩
  | @appendedEntry node e _ =>
      -- The push comes first and is not a message.
      exact ⟨s.currentTerm, Or.inl rfl, fun term member =>
        sentTerms_entryActions (s := appendClient e s) member⟩
  | pending due _ _ =>
      rw [idle] at due
      cases due
  | timer timed =>
      refine ⟨effect.state.currentTerm, Or.inr rfl, fun term member => ?_⟩
      obtain ⟨node, msg, sent, carries⟩ := mem_sentTerms.mp member
      cases timed with
      | waited _ => cases sent
      | heartbeat _ =>
          obtain ⟨-, -, rfl⟩ := send_mem_sends.mp sent
          exact (Option.some.inj carries).symm
      | stood _ =>
          obtain ⟨-, -, rfl⟩ := send_mem_sends.mp sent
          exact (Option.some.inj carries).symm

/-- The terms in which a server stood for election, in order. -/
def candidacies (trace : List (Step Node)) : List Int :=
  (trace.filter isCandidacy).map fun t => t.after.currentTerm

/-- The terms of the messages and of the candidacies of a run follow its current term. -/
structure TermsFollow (trace : List (Step Node)) (s : RaftServer Node) : Prop where
  sent : (sentTerms (emissions trace)).Pairwise (· ≤ ·)
  stood : (candidacies trace).Pairwise (· < ·)
  sent_le : ∀ term ∈ sentTerms (emissions trace), term ≤ s.currentTerm
  stood_le : ∀ term ∈ candidacies trace, term ≤ s.currentTerm

/-- What is at most a bound may be followed by what is at least it. -/
theorem pairwise_le_append {terms more : List Int} {bound stamp : Int}
    (order : terms.Pairwise (· ≤ ·)) (below : ∀ term ∈ terms, term ≤ bound)
    (above : bound ≤ stamp) (same : ∀ term ∈ more, term = stamp) :
    (terms ++ more).Pairwise (· ≤ ·) := by
  have constant : more = List.replicate more.length stamp := List.eq_replicate_iff.mpr ⟨rfl, same⟩
  rw [List.pairwise_append]
  refine ⟨order, ?_, fun early earlyMember late lateMember => ?_⟩
  · rw [constant, List.pairwise_replicate]
    exact Or.inr (Int.le_refl _)
  · rw [same late lateMember]
    exact Int.le_trans (below early earlyMember) above

/-- One step keeps the terms in order: what it sends is no earlier than what was sent, and a
candidacy is later than every one before. -/
theorem TermsFollow.step {trace : List (Step Node)} {s : RaftServer Node} {event : Event Node}
    {effect : Effect (RaftServer Node) (Action Node)} (follow : TermsFollow trace s)
    (result : StepResult s event effect) (idle : s.hasPendingEntry = false)
    (grown : s.currentTerm ≤ effect.state.currentTerm) :
    TermsFollow (trace ++ [⟨s, event, effect.state, effect.emitted⟩]) effect.state := by
  obtain ⟨stamp, either, same⟩ := result.sentTerms idle
  have reached : s.currentTerm ≤ stamp := by omega
  have current : stamp ≤ effect.state.currentTerm := by omega
  have standing : candidacies (trace ++ [⟨s, event, effect.state, effect.emitted⟩]) =
      candidacies trace ++
        if isCandidacy ⟨s, event, effect.state, effect.emitted⟩ then [effect.state.currentTerm]
        else [] := by
    unfold candidacies
    rw [List.filter_append, List.map_append]
    congr 1
    split <;> simp_all
  refine ⟨?_, ?_, ?_, ?_⟩
  · rw [emissions_append_singleton, sentTerms_append]
    exact pairwise_le_append follow.sent follow.sent_le reached same
  · rw [standing]
    split
    · rename_i candidacy
      rw [isCandidacy, decide_eq_true_iff] at candidacy
      rw [List.pairwise_append]
      refine ⟨follow.stood, List.pairwise_singleton _ _, fun early member late isLate => ?_⟩
      obtain rfl := List.mem_singleton.mp isLate
      exact Int.lt_of_le_of_lt (follow.stood_le early member) candidacy.2
    · rw [List.append_nil]
      exact follow.stood
  · intro term member
    rw [emissions_append_singleton, sentTerms_append] at member
    rcases List.mem_append.mp member with old | new
    · exact Int.le_trans (follow.sent_le term old) grown
    · rw [same term new]
      exact current
  · intro term member
    rw [standing] at member
    rcases List.mem_append.mp member with old | new
    · exact Int.le_trans (follow.stood_le term old) grown
    · split at new
      · rw [List.mem_singleton.mp new]
      · cases new

/-- Every run. -/
theorem RunFrom.termsFollow {config : Config Node} {trace : List (Step Node)}
    {s : RaftServer Node} (run : RunFrom config trace s) : TermsFollow trace s := by
  apply run.invariant TermsFollow
  · exact ⟨.nil, .nil, by simp [sentTerms], by simp [candidacies]⟩
  · intro trace s event effect reached follow stepped
    have idle := RunFrom.hasPendingEntry_eq_false reached
    have result := step_result stepped
    exact follow.step result idle (result.termOrdered (RunFrom.termOrdered reached)).1

/-- In every run of a server the terms on the messages it sends, taken in the order of sending,
never decrease and never exceed its current term, and the terms of its candidacies strictly
increase. -/
theorem sent_terms_never_fall (config : Config Node) (trace : List (Step Node))
    (s : RaftServer Node) (run : RunFrom config trace s) :
    (sentTerms (emissions trace)).Pairwise (· ≤ ·) ∧
      (∀ term ∈ sentTerms (emissions trace), term ≤ s.currentTerm) ∧
      (candidacies trace).Pairwise (· < ·) := by
  have follow := RunFrom.termsFollow run
  exact ⟨follow.sent, follow.sent_le, follow.stood⟩

/-- A candidacy, an answer to a leader of a later term, a vote, and a candidacy again. -/
def candidacyAnswerVote (leader candidate : Node) : List (Event Node) :=
  [.periodic 1000 (0, 9), .recvAppendentries true leader (.new 4 0 0 0 0) (0, 0),
    .recvRequestvote candidate ⟨6, 0, 1, 0⟩, .periodic 1000 (3, 9)]

/-- A member stands twice and answers in between: the terms that it sends do not fall. -/
theorem sent_terms_of_member :
    sentTerms (emissions (traceOn (0 : Fin 3) (candidacyAnswerVote 1 2))) = [1, 1, 1, 4, 8, 8] ∧
      candidacies (traceOn (0 : Fin 3) (candidacyAnswerVote 1 2)) = [1, 8] ∧
      (candidacies (traceOn (0 : Fin 3) (candidacyAnswerVote 1 2))).Pairwise (· < ·) :=
  ⟨by decide, by decide, (sent_terms_never_fall (.member 0) _ _
    (run_traceOf (machine (Fin 3)) _ (candidacyAnswerVote 1 2) (by decide))).2.2⟩

end RaftServer

end CppRaft
