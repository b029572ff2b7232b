import CppRaft.Server.Application

/-!
# Terms and the log

The current term only grows, and the terms along the log follow it: they never
decrease and never exceed the current term. Truncation keeps a prefix, every push
is dated with the current term, and counting acknowledgements leaves what entries
say as it is.

A message of a higher term does not always raise it: only `recv_appendentries` ever sets
the term from a message, and only once the message has passed its checks.
-/

namespace CppRaft

open Machine

/-- A log written in terms that never decreased and have not passed `term`. -/
structure TermOrdered (term : Int) (log : RaftLogger) : Prop where
  nonzero : ∀ entry ∈ log, entry.id ≠ 0
  ordered : (log.map RaftEntry.term).Pairwise (· ≤ ·)
  bounded : ∀ entry ∈ log, entry.term ≤ term

/-- Two logs of the same content have the same terms. -/
theorem RaftLogger.map_term_of_content {log marked : RaftLogger}
    (same : marked.map RaftEntry.content = log.map RaftEntry.content) :
    marked.map RaftEntry.term = log.map RaftEntry.term := by
  have projected := congrArg (List.map Prod.fst) same
  rw [List.map_map, List.map_map] at projected
  exact projected

namespace TermOrdered

variable {term : Int} {log : RaftLogger}

theorem nil (term : Int) : TermOrdered term [] where
  nonzero := by simp
  ordered := by simp
  bounded := by simp

/-- A later term bounds the entries too. -/
theorem mono {later : Int} (order : TermOrdered term log) (grown : term ≤ later) :
    TermOrdered later log where
  nonzero := order.nonzero
  ordered := order.ordered
  bounded entry member := Int.le_trans (order.bounded entry member) grown

/-- What is kept of an ordered log is ordered. -/
theorem of_isPrefix {kept : RaftLogger} (order : TermOrdered term log) (keeps : kept <+: log) :
    TermOrdered term kept where
  nonzero entry member := order.nonzero entry (keeps.subset member)
  ordered := order.ordered.sublist (keeps.sublist.map _)
  bounded entry member := order.bounded entry (keeps.subset member)

/-- Entries pushed in the current term keep the order, as no entry of the log has a later
one. -/
theorem append {pushed : List RaftEntry} (order : TermOrdered term log)
    (current : ∀ entry ∈ pushed, entry.term = term) (valid : ∀ entry ∈ pushed, entry.id ≠ 0) :
    TermOrdered term (log ++ pushed) where
  nonzero := by
    intro entry member
    rcases List.mem_append.mp member with old | new
    · exact order.nonzero entry old
    · exact valid entry new
  ordered := by
    have constant : (pushed.map RaftEntry.term).Pairwise (· ≤ ·) := by
      have same : pushed.map RaftEntry.term = List.replicate pushed.length term := by
        rw [List.map_congr_left current, List.map_const']
      rw [same, List.pairwise_replicate]
      exact Or.inr (Int.le_refl _)
    rw [List.map_append, List.pairwise_append]
    refine ⟨order.ordered, constant, ?_⟩
    intro before member after member'
    obtain ⟨old, oldMember, rfl⟩ := List.mem_map.mp member
    obtain ⟨new, newMember, rfl⟩ := List.mem_map.mp member'
    rw [current new newMember]
    exact order.bounded old oldMember
  bounded := by
    intro entry member
    rcases List.mem_append.mp member with old | new
    · exact order.bounded entry old
    · exact Int.le_of_eq (current entry new)

/-- The order depends on what the entries say only, and not on the counters. -/
theorem of_content {marked : RaftLogger} (order : TermOrdered term log)
    (same : marked.map RaftEntry.content = log.map RaftEntry.content) :
    TermOrdered term marked := by
  have origin : ∀ entry ∈ marked, ∃ old ∈ log, old.content = entry.content := by
    intro entry member
    have image : entry.content ∈ log.map RaftEntry.content := by
      rw [← same]
      exact List.mem_map_of_mem member
    exact List.mem_map.mp image
  refine ⟨?_, ?_, ?_⟩
  · intro entry member
    obtain ⟨old, oldMember, content⟩ := origin entry member
    rw [← show old.id = entry.id from congrArg (fun c => c.2.1) content]
    exact order.nonzero old oldMember
  · rw [RaftLogger.map_term_of_content same]
    exact order.ordered
  · intro entry member
    obtain ⟨old, oldMember, content⟩ := origin entry member
    rw [← show old.term = entry.term from congrArg Prod.fst content]
    exact order.bounded old oldMember

/-- The entries a message adds. -/
theorem append_accepted (order : TermOrdered term log) (entries : List MsgEntry) :
    TermOrdered term (log ++ (acceptedEntries entries).map (RaftEntry.ofMsgEntry term)) := by
  apply order.append
  · intro entry member
    obtain ⟨source, -, rfl⟩ := List.mem_map.mp member
    rfl
  · intro entry member
    obtain ⟨source, accepted, rfl⟩ := List.mem_map.mp member
    exact intId_ne_zero_of_mem_acceptedEntries accepted

end TermOrdered

namespace RaftServer

variable {Node : Type} [DecidableEq Node]

/-- The timer part of `periodic` raises the term or keeps it, and leaves the log alone. -/
theorem TimerResult.term_le_and_log_eq {msec : Int} {rand : ℕ × ℕ} {s : RaftServer Node}
    {effect : Effect (RaftServer Node) (Action Node)} (timed : TimerResult msec rand s effect) :
    s.currentTerm ≤ effect.state.currentTerm ∧ effect.state.log = s.log := by
  cases timed with
  | waited _ => exact ⟨Int.le_refl _, rfl⟩
  | heartbeat _ => exact ⟨Int.le_refl _, rfl⟩
  | stood _ =>
      have raised := s.termIncrement_pos rand.1
      exact ⟨by simp only; omega, rfl⟩

/-- One step: the term does not fall and the log stays ordered under it. Entries are only
pushed with the current term and only cut from the end. -/
theorem StepResult.termOrdered {s : RaftServer Node} {event : Event Node}
    {effect : Effect (RaftServer Node) (Action Node)} (result : StepResult s event effect)
    (order : TermOrdered s.currentTerm s.log) :
    s.currentTerm ≤ effect.state.currentTerm ∧
      TermOrdered effect.state.currentTerm effect.state.log := by
  cases result with
  | @appendentries asResponce node ae stack _ appended =>
      cases appended with
      | refused _ =>
          rw [noticeLeader_currentTerm, noticeLeader_log]
          exact ⟨Int.le_refl _, order⟩
      | accepted kept reached _ keeps elapsed commit last applied _ =>
          exact ⟨reached, ((order.of_isPrefix keeps.isPrefixOf).mono reached).append_accepted _⟩
  | appendentriesResponse responded =>
      cases responded with
      | failed _ => exact ⟨Int.le_refl _, order⟩
      | succeeded _ marked mark _ _ committed =>
          obtain ⟨commit, applied, rfl⟩ := committed.applied.frame
          exact ⟨Int.le_refl _, order.of_content mark.content⟩
  | requestvote node vr => exact ⟨Int.le_refl _, order⟩
  | requestvoteResponse _ ballot =>
      cases ballot with
      | ignored _ => exact ⟨Int.le_refl _, order⟩
      | refused _ _ => exact ⟨Int.le_refl _, order⟩
      | counted _ _ => exact ⟨Int.le_refl _, order⟩
      | elected _ _ _ =>
          rw [becomeLeader_eq]
          exact ⟨Int.le_refl _, order⟩
  | refusedEntry _ _ => exact ⟨Int.le_refl _, order⟩
  | @appendedEntry node e nonzero =>
      refine ⟨Int.le_refl _, order.append ?_ ?_⟩
      · intro entry member
        obtain rfl := List.mem_singleton.mp member
        rfl
      · intro entry member
        obtain rfl := List.mem_singleton.mp member
        exact nonzero
  | pending _ entry rest =>
      obtain ⟨commit, applied, rfl⟩ := entry.frame
      rcases rest with rfl | timed
      · exact ⟨Int.le_refl _, order⟩
      · obtain ⟨grown, sameLog⟩ := timed.term_le_and_log_eq
        rw [sameLog]
        exact ⟨grown, order.mono grown⟩
  | timer timed =>
      obtain ⟨grown, sameLog⟩ := timed.term_le_and_log_eq
      rw [sameLog]
      exact ⟨grown, order.mono grown⟩

/-- The log of every reachable state is ordered under the current term. -/
theorem RunFrom.termOrdered {config : Config Node} {trace : List (Step Node)}
    {s : RaftServer Node} (run : RunFrom config trace s) : TermOrdered s.currentTerm s.log := by
  apply run.invariant (fun _ s => TermOrdered s.currentTerm s.log)
  · exact .nil 0
  · intro trace s event effect _ order stepped
    exact ((step_result stepped).termOrdered order).2

/-- No step of a run lowers the term. -/
theorem RunFrom.term_le {config : Config Node} {trace : List (Step Node)} {s : RaftServer Node}
    (run : RunFrom config trace s) {t : Step Node} (member : t ∈ trace) :
    t.before.currentTerm ≤ t.after.currentTerm := by
  obtain ⟨past, reached, stepped⟩ := run.at_mem member
  exact ((step_result stepped).termOrdered (RunFrom.termOrdered reached)).1

/-- In every run the current term never decreases; in every reachable state no entry has id
zero, the terms along the log are non-decreasing, and the last one is at most the current
term. -/
theorem terms_grow_and_log_is_ordered (config : Config Node) (trace : List (Step Node))
    (s : RaftServer Node) (run : RunFrom config trace s) :
    (∀ t ∈ trace, t.before.currentTerm ≤ t.after.currentTerm) ∧
      (∀ entry ∈ s.log, entry.id ≠ 0) ∧
      (s.log.map RaftEntry.term).Pairwise (· ≤ ·) ∧
      ∀ entry, s.log.getLast? = some entry → entry.term ≤ s.currentTerm := by
  have order := RunFrom.termOrdered run
  exact ⟨fun t member => RunFrom.term_le run member, order.nonzero, order.ordered,
    fun entry tail => order.bounded entry (List.mem_of_getLast? tail)⟩

/-- A candidacy, a message of a later term with two entries, and a client entry. -/
def candidacyThenEntries (leader client : Node) : List (Event Node) :=
  [.periodic 1000 (2, 7),
    .recvAppendentries true leader ⟨5, 0, 0, 0, [⟨7, [1]⟩, ⟨4, [2]⟩], by decide⟩ (0, 0),
    .recvEntry client ⟨3, [3]⟩]

/-- A candidacy, entries of a later leader and a client entry leave three entries in the
order of their terms. -/
theorem terms_grow_and_log_is_ordered_of_member :
    (stateOn (0 : Fin 3) (candidacyThenEntries 1 2)).log.length = 3 ∧
      ((stateOn (0 : Fin 3) (candidacyThenEntries 1 2)).log.map RaftEntry.term).Pairwise (· ≤ ·) :=
  ⟨by decide, (terms_grow_and_log_is_ordered (.member 0) _ _
    (run_traceOf (machine (Fin 3)) _ (candidacyThenEntries 1 2) (by decide))).2.2.1⟩

/-- The term that a message carries. -/
def messageTerm? : Event Node → Option Int
  | .recvAppendentries _ _ ae _ => some ae.term
  | .recvAppendentriesResponse _ r => some r.term
  | .recvRequestvote _ vr => some vr.term
  | .recvRequestvoteResponse _ r _ => some r.term
  | .recvEntry _ _ => none
  | .periodic _ _ => none

/-- An AppendEntries message whose previous entry, if it names one, the log has. -/
def MatchesLog (s : RaftServer Node) : Event Node → Prop
  | .recvAppendentries _ _ ae _ => ae.prevLogIdx = 0 ∨
      (s.log.entryAt? ae.prevLogIdx).map RaftEntry.term = some ae.prevLogTerm
  | _ => False

omit [DecidableEq Node] in
/-- A step that keeps the term adopts that of a message exactly if it has reached it already. -/
theorem adopts_iff_of_same_term {s t : RaftServer Node} {term : Int} {P : Prop}
    (same : t.currentTerm = s.currentTerm) (other : s.currentTerm < term → ¬P) :
    (term ≤ t.currentTerm ∧
        (s.currentTerm < term → t.state ≠ .leader ∧ t.state ≠ .candidate)) ↔
      term ≤ s.currentTerm ∨ P := by
  rw [same]
  constructor
  · exact fun adopted => Or.inl adopted.1
  · rintro (reached | holds)
    · exact ⟨reached, fun higher => absurd reached (Int.not_le.mpr higher)⟩
    · have reached := Int.not_lt.mp fun higher => other higher holds
      exact ⟨reached, fun higher => absurd reached (Int.not_le.mpr higher)⟩

/-- A server that has handled a message is in the term of the message or a later one, and neither
leads nor stands for election if that raised its term, exactly if it was in that term before or
the message is AppendEntries and matches the log. -/
theorem higher_term_adopted_iff {s : RaftServer Node} {event : Event Node}
    {effect : Effect (RaftServer Node) (Action Node)}
    (stepped : (machine Node).step s event = some effect) {term : Int}
    (carries : messageTerm? event = some term) :
    (term ≤ effect.state.currentTerm ∧
        (s.currentTerm < term →
          effect.state.state ≠ .leader ∧ effect.state.state ≠ .candidate)) ↔
      term ≤ s.currentTerm ∨ MatchesLog s event := by
  cases step_result stepped with
  | @appendentries asResponce node ae stack _ appended =>
      cases carries
      cases appended with
      | refused reason =>
          refine adopts_iff_of_same_term (noticeLeader_currentTerm _ _ _) fun higher matched => ?_
          have passed := (keptLog?_isSome_iff ae s).mpr ⟨Int.le_of_lt higher, matched⟩
          rw [keptLog?_eq_none reason] at passed
          cases passed
      | accepted kept reached deleted _ elapsed commit last _ _ =>
          have found := (keptLog?_eq_some_iff ae s kept).mpr ⟨reached, deleted⟩
          have passed := (keptLog?_isSome_iff ae s).mp (by rw [found]; rfl)
          have inactive := s.roleAfterAppend_not_active
          rw [not_or] at inactive
          exact iff_of_true ⟨Int.le_refl _, fun _ => inactive⟩ (Or.inr passed.2)
  | appendentriesResponse responded =>
      refine adopts_iff_of_same_term ?_ fun _ => id
      cases responded with
      | failed _ => rfl
      | succeeded _ _ _ _ _ committed =>
          obtain ⟨commit, last, rfl⟩ := committed.applied.frame
          rfl
  | requestvote _ _ => exact adopts_iff_of_same_term rfl fun _ => id
  | requestvoteResponse _ ballot =>
      refine adopts_iff_of_same_term ?_ fun _ => id
      cases ballot with
      | ignored _ => rfl
      | refused _ _ => rfl
      | counted _ _ => rfl
      | elected _ _ _ => rw [becomeLeader_eq]; rfl
  | refusedEntry _ _ => cases carries
  | appendedEntry _ _ => cases carries
  | pending _ _ _ => cases carries
  | timer _ => cases carries

/-- An AppendEntries message of a later term for a candidate, and a RequestVote of a still later
one. -/
def laterTerms (leader candidate : Node) : List (Event Node) :=
  [.periodic 1000 (0, 9), .recvAppendentries true leader (.new 4 0 0 0 0) (0, 0),
    .recvRequestvote candidate ⟨6, 0, 1, 0⟩]

/-- The message takes the candidate to its term. -/
theorem higher_term_adopted_by_candidate :
    (stateOn (0 : Fin 3) ((laterTerms 1 2).take 1)).state = .candidate ∧
      ∃ effect, (machine (Fin 3)).step (stateOn (0 : Fin 3) ((laterTerms 1 2).take 1))
          (.recvAppendentries true 1 (.new 4 0 0 0 0) (0, 0)) = some effect ∧
        4 ≤ effect.state.currentTerm :=
  ⟨by decide, _, (Option.some_get (by decide)).symm,
    ((higher_term_adopted_iff (Option.some_get (by decide)).symm rfl).mpr
      (Or.inr (by left; rfl))).1⟩

/-- The request for a vote in a later term is granted and leaves the term as it is. -/
theorem higher_term_not_adopted :
    RunFrom (.member 0) (traceOn (0 : Fin 3) (laterTerms 1 2)) (stateOn 0 (laterTerms 1 2)) ∧
      messageTerm? (.recvRequestvote (2 : Fin 3) ⟨6, 0, 1, 0⟩) = some 6 ∧
      (stateOn (0 : Fin 3) (laterTerms 1 2)).votedFor = some 2 ∧
      (stateOn (0 : Fin 3) (laterTerms 1 2)).currentTerm = 4 :=
  ⟨run_traceOf _ _ _ (by decide), rfl, by decide, by decide⟩

end RaftServer

end CppRaft
