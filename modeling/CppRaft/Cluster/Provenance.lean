import CppRaft.Cluster.StateMachine
import CppRaft.Server.WireTerms
import CppRaft.Server.Leadership

/-!
# Where the entries and the terms of a cluster come from

A log holds the entries that clients submitted to its own server while it led, and nothing
else: what one server appends never reaches the log of another. Terms, on the other hand,
do travel. Every term that a server is in, that a message carries or that an entry is
dated with is the initial one or one in which some server of the cluster stood for election.
-/

namespace CppRaft

open Machine RaftServer

namespace RaftServer

variable {Node : Type}

/-- What the clients of a server have written to its log, in order. -/
def writings (trace : List (Step Node)) : List (Int × Int × List UInt8) :=
  trace.filterMap fun t => written? t.before t.event

/-- What clients wrote is collected step by step. -/
theorem writings_append_singleton (trace : List (Step Node)) (t : Step Node) :
    writings (trace ++ [t]) = writings trace ++ (written? t.before t.event).toList := by
  unfold writings
  rw [List.filterMap_append]
  cases write : written? t.before t.event <;> simp [write]

/-- The log of a server that is sent no entries, and what it applies. -/
structure OwnLog (trace : List (Step Node)) (s : RaftServer Node) : Prop where
  log : s.log.map RaftEntry.content = writings trace
  applied : ∀ idx entry, .applylog idx entry ∈ emissions trace →
    s.log.contentAt? idx = some entry.content

variable [DecidableEq Node]

/-- In a run in which no message carries entries the log is what clients have written, in
order. -/
theorem RunFrom.ownLog {config : Config Node} {trace : List (Step Node)} {s : RaftServer Node}
    (run : RunFrom config trace s) (nothing : ∀ t ∈ trace, CarriesNothing t.event) :
    OwnLog trace s := by
  apply run.invariant_along (P := fun _ t => CarriesNothing t.event) OwnLog ?_ ?_
    (along_of_forall nothing)
  · exact ⟨rfl, fun idx entry member => by cases member⟩
  · intro trace s event effect reached earlier stepped nothing
    have grows := (step_result stepped).grows (RunFrom.hasPendingEntry_eq_false reached) nothing
    refine ⟨?_, fun idx entry member => ?_⟩
    · rw [grows.log, earlier.log, writings_append_singleton]
    · rw [emissions_append_singleton] at member
      apply RaftLogger.contentAt?_of_map_eq_append grows.log
      rcases List.mem_append.mp member with old | new
      · exact earlier.applied idx entry old
      · exact grows.applied idx entry new

/-- Where the term after a step comes from: it is the term before, the term of a message, or
a new one of a candidacy. -/
theorem StepResult.term_source {s : RaftServer Node} {event : Event Node}
    {effect : Effect (RaftServer Node) (Action Node)} (result : StepResult s event effect)
    (idle : s.hasPendingEntry = false) :
    effect.state.currentTerm = s.currentTerm ∨
      announcedTerm? event = some effect.state.currentTerm ∨
      voteOf ⟨s, event, effect.state, effect.emitted⟩ =
        some (.stood effect.state.currentTerm) := by
  cases result with
  | appendentries appended =>
      cases appended with
      | refused _ => exact Or.inl (noticeLeader_currentTerm _ _ _)
      | accepted _ _ _ _ _ _ _ _ _ => exact Or.inr (Or.inl rfl)
  | appendentriesResponse responded =>
      cases responded with
      | failed _ => exact Or.inl rfl
      | succeeded _ _ _ _ _ committed =>
          obtain ⟨commit, last, rfl⟩ := committed.applied.frame
          exact Or.inl rfl
  | requestvote _ _ => exact Or.inl rfl
  | requestvoteResponse _ ballot =>
      cases ballot with
      | ignored _ => exact Or.inl rfl
      | refused _ _ => exact Or.inl rfl
      | counted _ _ => exact Or.inl rfl
      | elected _ _ _ =>
          rw [becomeLeader_eq]
          exact Or.inl rfl
  | refusedEntry _ _ => exact Or.inl rfl
  | appendedEntry _ _ => exact Or.inl rfl
  | pending due _ _ =>
      rw [idle] at due
      cases due
  | @timer msec rand _ timed =>
      cases timed with
      | waited _ => exact Or.inl rfl
      | heartbeat _ => exact Or.inl rfl
      | stood _ =>
          have raised := s.termIncrement_pos rand.1
          have higher : s.currentTerm < s.currentTerm + s.termIncrement rand.1 := by omega
          exact Or.inr (Or.inr (by simp [voteOf, higher]))

end RaftServer

namespace Cluster

variable {Node : Type} [DecidableEq Node]

/-- Client entries reach a server only while it leads: they come from its own clients, which
turn to a leader, and not through the network. -/
theorem leads_of_written {cluster : Cluster Node} {trace : List (ClusterStep Node)}
    {s : NetState Node (RaftServer Node) (Event Node) Message} (run : RunOf cluster trace s)
    {self : Node} {t : Step Node} (member : t ∈ serverTrace self trace)
    (writes : written? t.before t.event ≠ none) : t.before.state = .leader := by
  have origin := (protocol Node).origin_of_mem_localTrace rfl run self t member
  cases event : t.event with
  | recvEntry client e =>
      rw [event] at origin
      rcases origin with own | ⟨packet, choice, -, received, -⟩
      · exact of_decide_eq_true own
      · simp only [protocol, receive] at received
        split at received <;> cases received
  | _ =>
      rw [event] at writes
      exact absurd rfl writes

/-- The term is the initial one, or some server of the run stood for election in it. -/
def Sourced (trace : List (ClusterStep Node)) (term : Int) : Prop :=
  term = 0 ∨ ∃ node, .stood term ∈ votes (serverTrace node trace)

/-- A term that has a source keeps it. -/
theorem Sourced.append {trace : List (ClusterStep Node)} {term : Int}
    (sourced : Sourced trace term) (t : ClusterStep Node) : Sourced (trace ++ [t]) term := by
  rcases sourced with zero | ⟨node, stood⟩
  · exact Or.inl zero
  · refine Or.inr ⟨node, ?_⟩
    rw [serverTrace, Protocol.localTrace_append_singleton, votes, List.filterMap_append]
    exact List.mem_append_left _ stood

/-- The terms of the servers, of the packets and of the entries have a source. -/
structure TermsSourced (trace : List (ClusterStep Node))
    (s : NetState Node (RaftServer Node) (Event Node) Message) : Prop where
  servers : ∀ node, Sourced trace (s.node node).currentTerm
  packets : ∀ packet ∈ s.inFlight, ∀ term ∈ packet.msg.term?, Sourced trace term
  logs : ∀ node, ∀ entry ∈ (s.node node).log, Sourced trace entry.term

/-- An AppendEntries message that is handled was in flight, so some server has sent it. -/
theorem packet_of_announced {s : NetState Node (RaftServer Node) (Event Node) Message}
    {event : NetEvent Node (Event Node) (Bool × Int × Int)} {self : Node} {call : Event Node}
    (handles : (protocol Node).handled s event = some (self, call)) {term : Int}
    (announced : announcedTerm? call = some term) :
    ∃ packet ∈ s.inFlight, packet.msg.term? = some term := by
  cases call with
  | recvAppendentries asResponce node ae stack =>
      rcases (protocol Node).origin_of_handled handles with
        own | ⟨packet, inFlight, choice, -, received⟩
      · cases own
      · refine ⟨packet, inFlight, ?_⟩
        rw [receive_eq_appendentries received]
        exact announced
  | _ => cases announced

/-- A call at one server: if its term changes, the new term has a source, and so have the
terms of the messages that it sends. -/
theorem TermsSourced.call {trace : List (ClusterStep Node)}
    {s : NetState Node (RaftServer Node) (Event Node) Message}
    {event : NetEvent Node (Event Node) (Bool × Int × Int)} (earlier : TermsSourced trace s)
    {self : Node} {call : Event Node} {own : Effect (RaftServer Node) (Action Node)}
    (handles : (protocol Node).handled s event = some (self, call))
    (result : StepResult (s.node self) call own) (idle : (s.node self).hasPendingEntry = false)
    (grows : Grows (s.node self) call own) {t : ClusterStep Node}
    (taken : t = ⟨s, event, ⟨Function.update s.node self own.state,
        Protocol.remaining s event ++ (protocol Node).packets self call own.emitted⟩,
      own.emitted.map fun action => (self, action)⟩) :
    TermsSourced (trace ++ [t]) t.after := by
  have before := (earlier.servers self).append t
  have after : Sourced (trace ++ [t]) own.state.currentTerm := by
    rcases result.term_source idle with same | announced | stood
    · rw [same]
      exact before
    · obtain ⟨packet, inFlight, carries⟩ := packet_of_announced handles announced
      exact (earlier.packets packet inFlight _ carries).append t
    · refine Or.inr ⟨self, ?_⟩
      rw [serverTrace, Protocol.localTrace_append_singleton, taken,
        (protocol Node).localStep_of_handled handles, votes, List.filterMap_append]
      exact List.mem_append_right _ (by simp [stood])
  subst taken
  refine ⟨fun node => ?_, fun packet member term carries => ?_, fun node entry member => ?_⟩
  · by_cases same : node = self
    · subst same
      simpa using after
    · simp only [Function.update_of_ne same]
      exact (earlier.servers node).append _
  · rcases List.mem_append.mp member with old | new
    · exact (earlier.packets packet (Protocol.mem_remaining old) term carries).append _
    · obtain ⟨action, actionMember, sends⟩ := List.mem_filterMap.mp new
      obtain ⟨⟨dst, msg⟩, sent, rfl⟩ := Option.map_eq_some_iff.mp sends
      rw [sent?_eq_some sent] at actionMember
      obtain ⟨stamp, either, stamped⟩ := result.sentTerms idle
      rw [stamped term (mem_sentTerms.mpr ⟨dst, msg, actionMember, carries⟩)]
      rcases either with rfl | rfl
      · exact before
      · exact after
  · by_cases same : node = self
    · subst same
      simp only [Function.update_self] at member
      -- The content of the entry is an old one, or was written in the current term.
      have content : entry.content ∈ own.state.log.map RaftEntry.content :=
        List.mem_map_of_mem member
      rw [grows.log] at content
      rcases List.mem_append.mp content with old | new
      · obtain ⟨other, otherMember, same⟩ := List.mem_map.mp old
        rw [← show other.term = entry.term from congrArg Prod.fst same]
        exact (earlier.logs node other otherMember).append _
      · rw [Option.mem_toList, written?_eq] at new
        obtain ⟨e, -, same⟩ := Option.map_eq_some_iff.mp new
        rw [← show (s.node node).currentTerm = entry.term from congrArg Prod.fst same]
        exact before
    · simp only [Function.update_of_ne same] at member
      exact (earlier.logs node entry member).append _

/-- In every run of a cluster each term that a server is in, that a message in flight carries or
that an entry of a log is dated with is zero or a term in which some server of the cluster stood
for election. -/
theorem terms_come_from_candidacies (cluster : Cluster Node) (trace : List (ClusterStep Node))
    (s : NetState Node (RaftServer Node) (Event Node) Message) (run : RunOf cluster trace s) :
    (∀ node, Sourced trace (s.node node).currentTerm) ∧
      (∀ packet ∈ s.inFlight, ∀ term ∈ packet.msg.term?, Sourced trace term) ∧
      ∀ node, ∀ entry ∈ (s.node node).log, Sourced trace entry.term := by
  suffices sourced : TermsSourced trace s from ⟨sourced.servers, sourced.packets, sourced.logs⟩
  apply run.invariant TermsSourced
  · refine ⟨fun node => Or.inl rfl, fun packet member => ?_, fun node entry member => ?_⟩
    · cases member
    · cases member
  · intro trace s event effect reached earlier stepped
    have extended : RunOf cluster _ _ := reached.snoc stepped
    rcases (protocol Node).network_step_cases stepped with
      ⟨self, call, own, handles, ownStep, rfl⟩ | ⟨-, rfl⟩
    · have idle := RunFrom.hasPendingEntry_eq_false (RunOf.server reached self)
      have result := step_result ownStep
      have nothing : CarriesNothing call := by
        refine RunOf.carriesNothing (t := ⟨s.node self, call, own.state, own.emitted⟩) extended
          (?_ : _ ∈ serverTrace self _)
        rw [serverTrace, Protocol.localTrace_append_singleton,
          (protocol Node).localStep_of_handled handles]
        simp
      exact earlier.call handles result idle (result.grows idle nothing) rfl
    · exact ⟨fun node => (earlier.servers node).append _,
        fun packet member term carries =>
          (earlier.packets packet (Protocol.mem_remaining member) term carries).append _,
        fun node entry member => (earlier.logs node entry member).append _⟩

/-- In a cluster of three a follower ends in term two, which two candidacies have made. -/
theorem terms_of_three_come_from_candidacies :
    ((clusterState (twoClientEntries (0 : Fin 3) 1 2)).node 2).currentTerm = 2 ∧
      Sourced (clusterTrace (twoClientEntries (0 : Fin 3) 1 2))
        ((clusterState (twoClientEntries (0 : Fin 3) 1 2)).node 2).currentTerm :=
  ⟨by decide, (terms_come_from_candidacies (ofMembers 3) _ _
    (run_traceOf (protocol (Fin 3)).network _ (twoClientEntries 0 1 2) (by decide))).1 2⟩

end Cluster

end CppRaft
