import CppRaft.Server.AppendReply
import CppRaft.Server.TermOrder
import CppRaft.Server.Voting

/-!
# Which logs a vote compares

A RequestVote carries `current_idx` of the candidate and zero for the term of its last
entry, and the voter compares the index with its own `current_idx`. This index counts
every entry that was ever appended, also those that a later message deleted, and nobody
compares the last terms. So a vote goes to a candidate with a log at least as up-to-date
if its run deleted no more entries than the voter's, replaced those it deleted, and
appended under a term at least as late as any that the voter's run appended under.
-/

namespace CppRaft

open Machine

/-- The term of the last entry, zero for an empty log. -/
def RaftLogger.lastTerm (log : RaftLogger) : Int :=
  (log.getLast?.map RaftEntry.term).getD 0

/-- The first log is at least as up-to-date as the second. -/
def RaftLogger.UpToDate (log other : RaftLogger) : Prop :=
  other.lastTerm < log.lastTerm ∨ log.lastTerm = other.lastTerm ∧ other.logCount ≤ log.logCount

instance (log other : RaftLogger) : Decidable (log.UpToDate other) :=
  inferInstanceAs (Decidable (_ ∨ _ ∧ _))

/-- The last term after entries of one term were appended. -/
theorem RaftLogger.lastTerm_append {log : RaftLogger} {pushed : List RaftEntry} {term : Int}
    (some : pushed ≠ []) (same : ∀ entry ∈ pushed, entry.term = term) :
    RaftLogger.lastTerm (log ++ pushed) = term := by
  rw [lastTerm, List.getLast?_append_of_ne_nil log some, List.getLast?_eq_some_getLast some]
  exact same _ (List.getLast_mem some)

/-- The last term depends on the terms only. -/
theorem RaftLogger.lastTerm_of_map_term {log other : RaftLogger}
    (same : log.map RaftEntry.term = other.map RaftEntry.term) :
    log.lastTerm = other.lastTerm := by
  rw [lastTerm, lastTerm, ← List.getLast?_map, ← List.getLast?_map, same]

namespace RaftServer

variable {Node : Type}

/-- The request of `send_requestvote`, if the callback is set. -/
theorem mem_sendRequestvote_iff {node : Node} {s : RaftServer Node} {vr : MsgRequestvote} :
    .send node (.requestvote vr) ∈ (sendRequestvote node s).emitted ↔
      s.callbacks.send = true ∧ vr = ⟨s.currentTerm, 0, s.currentIdx, 0⟩ := by
  rw [sendRequestvote_eq, mem_sends]
  simp

variable [DecidableEq Node]

/-- The number of entries that the steps of a run delete from the log. -/
def deleted : List (Step Node) → ℕ
  | [] => 0
  | t :: trace => deletedBy t.before t.event + deleted trace

omit [DecidableEq Node] in
/-- Deletions are counted step by step. -/
theorem deleted_append_singleton (trace : List (Step Node)) (t : Step Node) :
    deleted (trace ++ [t]) = deleted trace + deletedBy t.before t.event := by
  induction trace with
  | nil => exact Nat.add_comm _ 0
  | cons first trace ih => rw [List.cons_append, deleted, ih, deleted, Nat.add_assoc]

/-- In every reachable state `current_idx` counts the entries of the log and the deleted ones. -/
theorem RunFrom.currentIdx_eq {config : Config Node} {trace : List (Step Node)}
    {s : RaftServer Node} (run : RunFrom config trace s) :
    s.currentIdx = s.log.logCount + deleted trace + 1 := by
  apply run.invariant (fun trace s => s.currentIdx = s.log.logCount + deleted trace + 1)
  · rfl
  · intro trace s event effect _ counted stepped
    have moved := (step_result stepped).currentIdx_sub_length
    simp only [RaftLogger.logCount, deleted_append_singleton] at counted ⊢
    omega

/-- The vote of `recv_requestvote` for its caller. -/
theorem grantedTo_recvRequestvote (node : Node) (vr : MsgRequestvote) (s : RaftServer Node) :
    grantedTo node (recvRequestvote node vr s).emitted = true ↔
      s.callbacks.send = true ∧ grantsVote vr s := by
  rw [recvRequestvote_eq]
  exact grantedTo_voteReply node vr s

/-- The term of the entries that a call appends to the log, if it appends any. A client entry
gets the current term, the entries of an AppendEntries that passes the checks get its term. -/
def appendedTerm? (s : RaftServer Node) : Event Node → Option Int
  | .recvEntry _ e => if e.intId = 0 then none else some s.currentTerm
  | .recvAppendentries _ _ ae _ =>
      if (keptLog? ae s).isSome ∧ acceptedEntries ae.entries ≠ [] then some ae.term else none
  | _ => none

/-- The terms of all entries that the steps of a run append, the deleted ones among them. -/
def appendedTerms (trace : List (Step Node)) : List Int :=
  trace.filterMap fun t => appendedTerm? t.before t.event

omit [DecidableEq Node] in
/-- Nothing is appended under a term below the current one. -/
theorem currentTerm_le_appendedTerm {s : RaftServer Node} {event : Event Node} {term : Int}
    (appends : appendedTerm? s event = some term) : s.currentTerm ≤ term := by
  unfold appendedTerm? at appends
  split at appends
  · split at appends
    · cases appends
    · exact Int.le_of_eq (Option.some.inj appends)
  · split at appends
    case isTrue passed =>
      rw [← Option.some.inj appends]
      exact ((keptLog?_isSome_iff _ _).mp passed.1).1
    case isFalse => cases appends
  · cases appends

/-- No answer to a vote request changes the log. -/
theorem BallotResult.log_eq {node : Node} {r : MsgRequestvoteResponse} {s : RaftServer Node}
    {effect : Effect (RaftServer Node) (Action Node)} (ballot : BallotResult node r s effect) :
    effect.state.log = s.log := by
  cases ballot with
  | ignored _ => rfl
  | refused _ _ => rfl
  | counted _ _ => rfl
  | elected _ _ _ =>
      rw [becomeLeader_eq]
      rfl

/-- The term of an entry that stands in the log after a step stood there before it, or it is the
term that the step appends under. -/
theorem StepResult.term_of_mem {s : RaftServer Node} {event : Event Node}
    {effect : Effect (RaftServer Node) (Action Node)} (result : StepResult s event effect)
    {term : Int} (member : term ∈ effect.state.log.map RaftEntry.term) :
    term ∈ s.log.map RaftEntry.term ∨ appendedTerm? s event = some term := by
  cases result with
  | @appendentries asResponce node ae stack _ appended =>
      cases appended with
      | refused _ =>
          rw [noticeLeader_log] at member
          exact .inl member
      | accepted kept reached deleted keeps elapsed commit last applied _ =>
          rcases List.mem_append.mp (List.map_append ▸ member) with old | new
          · exact .inl ((keeps.isPrefixOf.sublist.map _).subset old)
          · obtain ⟨entry, pushed, rfl⟩ := List.mem_map.mp new
            obtain ⟨source, accepted, rfl⟩ := List.mem_map.mp pushed
            have passed := (keptLog?_eq_some_iff ae s kept).mpr ⟨reached, deleted⟩
            refine .inr (if_pos ⟨by rw [passed]; rfl, List.ne_nil_of_mem accepted⟩)
  | appendentriesResponse responded =>
      cases responded with
      | failed _ => exact .inl member
      | succeeded _ marked mark _ _ committed =>
          obtain ⟨commit, applied, rfl⟩ := committed.applied.frame
          exact .inl (RaftLogger.map_term_of_content mark.content ▸ member)
  | requestvote node vr => exact .inl member
  | requestvoteResponse _ ballot =>
      rw [ballot.log_eq] at member
      exact .inl member
  | refusedEntry _ _ => exact .inl member
  | @appendedEntry node e nonzero =>
      rcases List.mem_append.mp (List.map_append ▸ member) with old | new
      · exact .inl old
      · rw [List.mem_singleton.mp new]
        exact .inr (if_neg nonzero)
  | pending _ entry rest =>
      obtain ⟨commit, applied, rfl⟩ := entry.frame
      rcases rest with rfl | timed
      · exact .inl member
      · rw [timed.term_le_and_log_eq.2] at member
        exact .inl member
  | timer timed =>
      rw [timed.term_le_and_log_eq.2] at member
      exact .inl member

/-- Every entry of a reachable log has a term under which a step of the run appended. -/
theorem RunFrom.term_mem_appendedTerms {config : Config Node} {trace : List (Step Node)}
    {s : RaftServer Node} (run : RunFrom config trace s) :
    ∀ term ∈ s.log.map RaftEntry.term, term ∈ appendedTerms trace := by
  apply run.invariant (fun trace s =>
    ∀ term ∈ s.log.map RaftEntry.term, term ∈ appendedTerms trace)
  · intro term member
    cases member
  · intro trace s event effect _ known stepped term member
    rw [appendedTerms, List.filterMap_append, List.mem_append]
    rcases (step_result stepped).term_of_mem member with old | new
    · exact .inl (known term old)
    · refine .inr (List.mem_filterMap.mpr ⟨_, List.mem_singleton_self _, new⟩)

/-- The current term starts at zero and never falls. -/
theorem RunFrom.currentTerm_nonneg {config : Config Node} {trace : List (Step Node)}
    {s : RaftServer Node} (run : RunFrom config trace s) : 0 ≤ s.currentTerm := by
  apply run.invariant (fun _ s => 0 ≤ s.currentTerm)
  · exact Int.le_refl 0
  · intro trace s event effect before nonneg stepped
    exact Int.le_trans nonneg
      ((step_result stepped).termOrdered (RunFrom.termOrdered before)).1

/-- Nothing is ever appended under a negative term. -/
theorem RunFrom.appendedTerms_nonneg {config : Config Node} {trace : List (Step Node)}
    {s : RaftServer Node} (run : RunFrom config trace s) :
    ∀ term ∈ appendedTerms trace, 0 ≤ term := by
  intro term member
  obtain ⟨t, tMember, appends⟩ := List.mem_filterMap.mp member
  obtain ⟨before, ran, -⟩ := run.at_mem tMember
  exact Int.le_trans (RunFrom.currentTerm_nonneg ran) (currentTerm_le_appendedTerm appends)

/-- The last term of a reachable log is zero, if the log is empty, or one under which a step of the
run appended. -/
theorem RunFrom.lastTerm_mem {config : Config Node} {trace : List (Step Node)}
    {s : RaftServer Node} (run : RunFrom config trace s) :
    s.log.lastTerm = 0 ∨ s.log.lastTerm ∈ appendedTerms trace := by
  cases last : s.log.getLast? with
  | none =>
      left
      rw [RaftLogger.lastTerm, last]
      rfl
  | some entry =>
      right
      rw [RaftLogger.lastTerm, last]
      exact RunFrom.term_mem_appendedTerms run _ (List.mem_map_of_mem (List.mem_of_getLast? last))

/-- No last term of a reachable log is negative. -/
theorem RunFrom.lastTerm_nonneg {config : Config Node} {trace : List (Step Node)}
    {s : RaftServer Node} (run : RunFrom config trace s) : 0 ≤ s.log.lastTerm := by
  rcases RunFrom.lastTerm_mem run with empty | appended
  · exact Int.le_of_eq empty.symm
  · exact RunFrom.appendedTerms_nonneg run _ appended

/-- After a step that appends, the term it appended under is the current one and the last one of
the log. -/
theorem StepResult.lastTerm_of_appended {s : RaftServer Node} {event : Event Node}
    {effect : Effect (RaftServer Node) (Action Node)} (result : StepResult s event effect)
    {term : Int} (appends : appendedTerm? s event = some term) :
    effect.state.currentTerm = term ∧ effect.state.log.lastTerm = term := by
  cases result with
  | @appendentries asResponce node ae stack _ appended =>
      obtain ⟨⟨passed, some⟩, same⟩ := Option.ite_none_right_eq_some.mp appends
      obtain rfl := Option.some.inj same
      cases appended with
      | refused reason =>
          rw [keptLog?_eq_none reason] at passed
          cases passed
      | accepted kept reached _ keeps elapsed commit last applied _ =>
          refine ⟨rfl, RaftLogger.lastTerm_append ?_ ?_⟩
          · exact fun nothing => some (List.map_eq_nil_iff.mp nothing)
          · intro entry member
            obtain ⟨source, -, rfl⟩ := List.mem_map.mp member
            rfl
  | @appendedEntry node e nonzero =>
      rw [appendedTerm?, if_neg nonzero] at appends
      obtain rfl := Option.some.inj appends
      refine ⟨rfl, RaftLogger.lastTerm_append (List.cons_ne_nil _ _) ?_⟩
      intro entry member
      rw [List.mem_singleton.mp member]
      rfl
  | refusedEntry _ zero =>
      rw [appendedTerm?, if_pos zero] at appends
      cases appends
  | _ => cases appends

/-- A step that neither appends nor deletes keeps the last term of the log, as it keeps the
contents of the log. -/
theorem StepResult.lastTerm_of_kept {s : RaftServer Node} {event : Event Node}
    {effect : Effect (RaftServer Node) (Action Node)} (result : StepResult s event effect)
    (nothing : appendedTerm? s event = none) (undeleted : deletedBy s event = 0) :
    effect.state.log.lastTerm = s.log.lastTerm := by
  cases result with
  | @appendentries asResponce node ae stack _ appended =>
      cases appended with
      | refused reason => rw [noticeLeader_log]
      | accepted kept reached deleted keeps elapsed commit last applied _ =>
          have passed := (keptLog?_eq_some_iff ae s kept).mpr ⟨reached, deleted⟩
          have whole : kept = s.log := by
            refine keeps.isPrefixOf.eq_of_length_le ?_
            simp only [deletedBy, logAfterDeletion, passed, Option.getD_some] at undeleted
            omega
          have none : acceptedEntries ae.entries = [] := by
            by_contra some
            rw [appendedTerm?, if_pos ⟨by rw [passed]; rfl, some⟩] at nothing
            cases nothing
          simp only [acceptAppend, none, List.map_nil, List.append_nil, whole]
  | appendentriesResponse responded =>
      cases responded with
      | failed _ => rfl
      | succeeded _ marked mark _ _ committed =>
          obtain ⟨commit, applied, rfl⟩ := committed.applied.frame
          exact RaftLogger.lastTerm_of_map_term (RaftLogger.map_term_of_content mark.content)
  | requestvote node vr => rfl
  | requestvoteResponse _ ballot => rw [ballot.log_eq]
  | refusedEntry _ _ => rfl
  | @appendedEntry node e nonzero =>
      rw [appendedTerm?, if_neg nonzero] at nothing
      cases nothing
  | pending _ entry rest =>
      obtain ⟨commit, applied, rfl⟩ := entry.frame
      rcases rest with rfl | timed
      · rfl
      · rw [timed.term_le_and_log_eq.2]
  | timer timed => rw [timed.term_le_and_log_eq.2]

/-- Every step of the run that deletes entries appends some in their place. -/
def Replaces (trace : List (Step Node)) : Prop :=
  ∀ t ∈ trace, deletedBy t.before t.event ≠ 0 → (appendedTerm? t.before t.event).isSome

instance (trace : List (Step Node)) : Decidable (Replaces trace) :=
  inferInstanceAs (Decidable (∀ t ∈ trace, _ → _))

/-- No step of a run appended under a term later than the current one, since entries are
stamped with the current term and that does not fall. -/
theorem RunFrom.appendedTerms_le {config : Config Node} {trace : List (Step Node)}
    {s : RaftServer Node} (run : RunFrom config trace s) :
    ∀ term ∈ appendedTerms trace, term ≤ s.currentTerm := by
  apply run.invariant (fun trace s => ∀ term ∈ appendedTerms trace, term ≤ s.currentTerm)
  · intro term member
    cases member
  · intro trace s event effect before bounded stepped term member
    rw [appendedTerms, List.filterMap_append, List.mem_append] at member
    rcases member with old | new
    · exact Int.le_trans (bounded term old)
        ((step_result stepped).termOrdered (RunFrom.termOrdered before)).1
    · obtain ⟨t, single, appends⟩ := List.mem_filterMap.mp new
      obtain rfl := List.mem_singleton.mp single
      exact Int.le_of_eq ((step_result stepped).lastTerm_of_appended appends).1.symm

/-- In a run that replaces what it deletes, the last entry of the log is of the latest term that
the run appended under. -/
theorem RunFrom.appendedTerms_le_lastTerm {config : Config Node} {trace : List (Step Node)}
    {s : RaftServer Node} (run : RunFrom config trace s) :
    Replaces trace → ∀ term ∈ appendedTerms trace, term ≤ s.log.lastTerm := by
  apply run.invariant (fun trace s =>
    Replaces trace → ∀ term ∈ appendedTerms trace, term ≤ s.log.lastTerm)
  · intro _ term member
    cases member
  · intro trace s event effect before bounded stepped replaces term member
    have result := step_result stepped
    have past : Replaces trace := fun t member => replaces t (List.mem_append_left _ member)
    cases appends : appendedTerm? s event with
    | some latest =>
        -- whatever was appended before is of no later term than the current one
        obtain ⟨current, last⟩ := result.lastTerm_of_appended appends
        rw [last, ← current]
        exact RunFrom.appendedTerms_le (before.snoc stepped) term member
    | none =>
        have undeleted : deletedBy s event = 0 := by
          by_contra some
          have replaced := replaces ⟨s, event, effect.state, effect.emitted⟩
            (List.mem_append_right _ (List.mem_singleton_self _)) some
          rw [appends] at replaced
          cases replaced
        rw [result.lastTerm_of_kept appends undeleted]
        refine bounded past term ?_
        rw [appendedTerms, List.filterMap_append, List.mem_append] at member
        refine member.resolve_right fun new => ?_
        obtain ⟨t, single, appended⟩ := List.mem_filterMap.mp new
        obtain rfl := List.mem_singleton.mp single
        rw [appends] at appended
        cases appended

/-- A vote goes to a candidate with a log at least as up-to-date if the candidate's run deleted no
more entries than the voter's, replaced what it deleted, and appended under a term at least as late
as any that the voter's run appended under. The indices that the voter compares count the deleted
entries, so they compare the lengths by the first condition; the last terms, which nobody compares,
are in order by the other two. -/
theorem granted_candidate_upToDate {config config' : Config Node}
    {trace trace' : List (Step Node)} {candidate voter : RaftServer Node}
    (run : RunFrom config trace candidate) (run' : RunFrom config' trace' voter)
    (fewer : deleted trace ≤ deleted trace') (replaces : Replaces trace)
    (later : ∀ term' ∈ appendedTerms trace', ∃ term ∈ appendedTerms trace, term' ≤ term)
    (asked asker : Node) (vr : MsgRequestvote)
    (sent : .send asked (.requestvote vr) ∈ (sendRequestvote asked candidate).emitted)
    (granted : grantedTo asker (recvRequestvote asker vr voter).emitted = true) :
    candidate.log.UpToDate voter.log := by
  obtain ⟨-, rfl⟩ := mem_sendRequestvote_iff.mp sent
  obtain ⟨-, -, -, index⟩ := (grantedTo_recvRequestvote asker _ voter).mp granted
  have counted := RunFrom.currentIdx_eq run
  have counted' := RunFrom.currentIdx_eq run'
  have longer : voter.log.logCount ≤ candidate.log.logCount := by
    simp only at index
    omega
  have terms : voter.log.lastTerm ≤ candidate.log.lastTerm := by
    rcases RunFrom.lastTerm_mem run' with empty | appended
    · rw [empty]
      exact RunFrom.lastTerm_nonneg run
    · obtain ⟨term, member, le⟩ := later _ appended
      exact Int.le_trans le (RunFrom.appendedTerms_le_lastTerm run replaces term member)
  unfold RaftLogger.UpToDate
  omega

/-- A client entry and an election. -/
def entryThenElection (client : Node) : List (Event Node) :=
  [.recvEntry client ⟨1, [10]⟩, .periodic 1000 (1, 0)]

/-- A heartbeat of term 1 and a client entry. -/
def heartbeatThenEntry (leader client : Node) : List (Event Node) :=
  [.recvAppendentries true leader (.new 1 0 0 0 0) (0, 0), .recvEntry client ⟨1, [20]⟩]

/-- Both append one entry in term 0 and delete none. -/
theorem granted_candidate_upToDate_equal :
    .send 1 (.requestvote ⟨2, 0, 2, 0⟩) ∈
        (sendRequestvote 1 (stateOn (0 : Fin 2) (entryThenElection 1))).emitted ∧
      grantedTo 0 (recvRequestvote 0 ⟨2, 0, 2, 0⟩
        (stateOn (1 : Fin 2) [.recvEntry 0 ⟨1, [20]⟩])).emitted = true ∧
      (stateOn (0 : Fin 2) (entryThenElection 1)).log.UpToDate
        (stateOn (1 : Fin 2) [.recvEntry 0 ⟨1, [20]⟩]).log :=
  ⟨by decide, by decide, granted_candidate_upToDate
    (run_traceOf (machine (Fin 2)) _ (entryThenElection 1) (by decide))
    (run_traceOf (machine (Fin 2)) _ [.recvEntry 0 ⟨1, [20]⟩] (by decide))
    (by decide) (by decide) (by decide) 1 0 ⟨2, 0, 2, 0⟩ (by decide) (by decide)⟩

/-- A voter whose last entry is of a later term grants the request. -/
theorem granted_candidate_behind :
    RunFrom (.member 0) (traceOn (0 : Fin 2) (entryThenElection 1))
        (stateOn 0 (entryThenElection 1)) ∧
      RunFrom (.member 1) (traceOn (1 : Fin 2) (heartbeatThenEntry 0 0))
        (stateOn 1 (heartbeatThenEntry 0 0)) ∧
      .send 1 (.requestvote ⟨2, 0, 2, 0⟩) ∈
        (sendRequestvote 1 (stateOn (0 : Fin 2) (entryThenElection 1))).emitted ∧
      grantedTo 0 (recvRequestvote 0 ⟨2, 0, 2, 0⟩
        (stateOn (1 : Fin 2) (heartbeatThenEntry 0 0))).emitted = true ∧
      ¬(stateOn (0 : Fin 2) (entryThenElection 1)).log.UpToDate
        (stateOn (1 : Fin 2) (heartbeatThenEntry 0 0)).log :=
  ⟨run_traceOf _ _ _ (by decide), run_traceOf _ _ _ (by decide), by decide, by decide, by decide⟩

end RaftServer

end CppRaft
