import CppRaft.Cluster.Basic
import CppRaft.Server.AppendOnly

/-!
# What the servers of a cluster apply

No message of a cluster carries entries, so the logs grow by client entries alone and
are never reconciled. The servers apply the same entries as long as clients write
the same ones.
-/

namespace CppRaft

open Machine RaftServer

namespace Cluster

variable {Node : Type} [DecidableEq Node]

omit [DecidableEq Node] in
/-- A message that a server receives is the one in the packet. -/
theorem receive_eq_appendentries {packet : Packet Node (Event Node) Message}
    {choice : Bool × Int × Int} {asResponce : Bool} {node : Node} {ae : MsgAppendEntries}
    {stack : Int × Int}
    (received : receive packet choice = some (.recvAppendentries asResponce node ae stack)) :
    packet.msg = .appendentries ae := by
  unfold receive at received
  split at received <;> cases received
  assumption

/-- The AppendEntries messages of a run start at index zero and carry no entries:
`send_appendentries` fills in none. -/
theorem RunOf.carriesNothing {cluster : Cluster Node} {trace : List (ClusterStep Node)}
    {s : NetState Node (RaftServer Node) (Event Node) Message} (run : RunOf cluster trace s)
    {self : Node} {t : Step Node} (member : t ∈ serverTrace self trace) :
    CarriesNothing t.event := by
  have origin := (protocol Node).origin_of_mem_localTrace rfl run self t member
  cases event : t.event with
  | recvAppendentries asResponce node ae stack =>
      rw [event] at origin
      rcases origin with own | ⟨packet, choice, -, received, emitted⟩
      · cases own
      · obtain ⟨sender, senderMember, -, sent⟩ := sent_of_emitted emitted
        rw [receive_eq_appendentries received] at sent
        obtain ⟨past, earlier, stepped⟩ := (RunOf.server run packet.src).at_mem senderMember
        exact ((step_result stepped).sends
          (RunFrom.hasPendingEntry_eq_false earlier) sent).carriesNothing
  | _ => trivial

/-- Client entries come to a server directly and not through the network. -/
theorem handled_eq_recvEntry {s : NetState Node (RaftServer Node) (Event Node) Message}
    {event : NetEvent Node (Event Node) (Bool × Int × Int)} {self client : Node} {e : MsgEntry}
    (handles : (protocol Node).handled s event = some (self, .recvEntry client e)) :
    event = .spontaneous self (.recvEntry client e) := by
  cases event with
  | spontaneous node call =>
      simp only [Protocol.handled] at handles
      split at handles <;> cases handles
      rfl
  | deliver position choice =>
      obtain ⟨packet, -, received⟩ := Option.bind_eq_some_iff.mp handles
      obtain ⟨call, receives, same⟩ := Option.map_eq_some_iff.mp received
      cases same
      simp only [protocol, receive] at receives
      split at receives <;> cases receives
  | drop position => cases handles

/-- A client entry is appended at an index where no other server holds a different entry. -/
def AppendsAgree (t : ClusterStep Node) : Prop :=
  match t.event with
  | .spontaneous self (.recvEntry _ e) =>
      e.id ≠ 0 → ∀ other, other ≠ self →
        ∀ content ∈ (t.before.node other).log.contentAt? ((t.before.node self).log.length + 1),
          content = ((t.before.node self).currentTerm, e.intId, e.data)
  | _ => True

instance [Fintype Node] (t : ClusterStep Node) : Decidable (AppendsAgree t) := by
  unfold AppendsAgree
  split <;> infer_instance

/-- The logs hold the same entries at the same indices, and every entry that was applied is in
the log of the server that applied it. -/
structure Agreement (trace : List (ClusterStep Node))
    (s : NetState Node (RaftServer Node) (Event Node) Message) : Prop where
  logs : ∀ first second idx content content', (s.node first).log.contentAt? idx = some content →
    (s.node second).log.contentAt? idx = some content' → content = content'
  applied : ∀ node idx entry, (node, .applylog idx entry) ∈ emissions trace →
    (s.node node).log.contentAt? idx = some entry.content

/-- What a server writes agrees with every other log, by the condition on what clients give
at an index. -/
theorem AppendsAgree.written {s after : NetState Node (RaftServer Node) (Event Node) Message}
    {event : NetEvent Node (Event Node) (Bool × Int × Int)} {emitted : List (Node × Action Node)}
    (agree : AppendsAgree ⟨s, event, after, emitted⟩) {self : Node} {call : Event Node}
    (handles : (protocol Node).handled s event = some (self, call))
    {content : Int × Int × List UInt8} (writes : written? (s.node self) call = some content)
    {other : Node} (different : other ≠ self) {content' : Int × Int × List UInt8}
    (found : (s.node other).log.contentAt? ((s.node self).log.length + 1) = some content') :
    content' = content := by
  cases call with
  | recvEntry client e =>
      obtain rfl := handled_eq_recvEntry handles
      simp only [written?] at writes
      split at writes
      · cases writes
      · rename_i nonzero
        cases writes
        have id : e.id ≠ 0 := fun zero => nonzero ((MsgEntry.intId_eq_zero_iff e).mpr zero)
        exact agree id other different content' found
  | _ => cases writes

/-- A call at one server removes no content. -/
theorem contentAt?_update {servers : Node → RaftServer Node} {self : Node} {call : Event Node}
    {own : Effect (RaftServer Node) (Action Node)} (grows : Grows (servers self) call own)
    {node : Node} {idx : Int} {content : Int × Int × List UInt8}
    (found : (servers node).log.contentAt? idx = some content) :
    (Function.update servers self own.state node).log.contentAt? idx = some content := by
  by_cases same : node = self
  · subst same
    rw [Function.update_self]
    exact RaftLogger.contentAt?_of_map_eq_append grows.log found
  · rwa [Function.update_of_ne same]

/-- A content after a call at one server was there before, or was written by the call. -/
theorem contentAt?_of_update {servers : Node → RaftServer Node} {self : Node}
    {call : Event Node} {own : Effect (RaftServer Node) (Action Node)}
    (grows : Grows (servers self) call own) {node : Node} {idx : Int}
    {content : Int × Int × List UInt8}
    (found : (Function.update servers self own.state node).log.contentAt? idx = some content) :
    (servers node).log.contentAt? idx = some content ∨
      idx = (servers self).log.length + 1 ∧ written? (servers self) call = some content := by
  by_cases same : node = self
  · subst same
    rw [Function.update_self] at found
    exact RaftLogger.contentAt?_eq_some_cases grows.log found
  · rw [Function.update_of_ne same] at found
    exact Or.inl found

/-- A call at one server keeps the agreement. Its log grows by what a client wrote, and that
is the only way in which a log changes. -/
theorem Agreement.call {trace : List (ClusterStep Node)}
    {s : NetState Node (RaftServer Node) (Event Node) Message}
    {event : NetEvent Node (Event Node) (Bool × Int × Int)} (agreement : Agreement trace s)
    {self : Node} {call : Event Node} {own : Effect (RaftServer Node) (Action Node)}
    {inFlight : List (Packet Node (Event Node) Message)}
    (handles : (protocol Node).handled s event = some (self, call))
    (grows : Grows (s.node self) call own)
    (agree : AppendsAgree ⟨s, event, ⟨Function.update s.node self own.state, inFlight⟩,
      own.emitted.map fun action => (self, action)⟩) :
    Agreement (trace ++ [⟨s, event, ⟨Function.update s.node self own.state, inFlight⟩,
        own.emitted.map fun action => (self, action)⟩])
      ⟨Function.update s.node self own.state, inFlight⟩ := by
  -- An old content at the index that is written is another server's, and agrees by assumption.
  have fresh : ∀ node idx content content', (s.node node).log.contentAt? idx = some content' →
      idx = (s.node self).log.length + 1 → written? (s.node self) call = some content →
      content' = content := by
    rintro node idx content content' found rfl writes
    by_cases same : node = self
    · subst same
      obtain ⟨entry, entryFound, -⟩ := Option.map_eq_some_iff.mp found
      have bounds := RaftLogger.entryAt?_eq_some_bounds entryFound
      omega
    · exact agree.written handles writes same found
  refine ⟨?_, ?_⟩
  · intro first second idx content content' found found'
    rcases contentAt?_of_update grows found with old | ⟨last, writes⟩
    · rcases contentAt?_of_update grows found' with old' | ⟨last', writes'⟩
      · exact agreement.logs first second idx content content' old old'
      · exact fresh first idx content' content old last' writes'
    · rcases contentAt?_of_update grows found' with old' | ⟨last', writes'⟩
      · exact (fresh second idx content content' old' last writes).symm
      · exact Option.some.inj (writes.symm.trans writes')
  · intro node idx entry member
    rw [emissions_append_singleton] at member
    rcases List.mem_append.mp member with earlier | new
    · exact contentAt?_update grows (agreement.applied node idx entry earlier)
    · obtain ⟨action, actionMember, same⟩ := List.mem_map.mp new
      cases same
      exact contentAt?_update grows (grows.applied idx entry actionMember)

/-- Every run whose client entries agree keeps the agreement, by induction on the run. -/
theorem RunOf.agreement {cluster : Cluster Node} {trace : List (ClusterStep Node)}
    {s : NetState Node (RaftServer Node) (Event Node) Message} (run : RunOf cluster trace s)
    (agree : ∀ t ∈ trace, AppendsAgree t) : Agreement trace s := by
  apply run.invariant_along Agreement ?_ ?_ (along_of_forall (Q := AppendsAgree) agree)
  · refine ⟨?_, ?_⟩
    · intro first second idx content content' found
      obtain ⟨entry, entryFound, -⟩ := Option.map_eq_some_iff.mp found
      cases RaftLogger.mem_of_entryAt? entryFound
    · intro node idx entry member
      cases member
  · intro trace s event effect reached agreement stepped agree
    have extended : RunOf cluster _ _ := reached.snoc stepped
    rcases (protocol Node).network_step_cases stepped with
      ⟨self, call, own, handles, ownStep, rfl⟩ | ⟨-, rfl⟩
    · have idle := RunFrom.hasPendingEntry_eq_false (RunOf.server reached self)
      have nothing : CarriesNothing call := by
        refine RunOf.carriesNothing (t := ⟨s.node self, call, own.state, own.emitted⟩) extended
          (?_ : _ ∈ serverTrace self _)
        rw [serverTrace, Protocol.localTrace_append_singleton,
          (protocol Node).localStep_of_handled handles]
        simp
      exact agreement.call handles ((step_result ownStep).grows idle nothing) agree
    · refine ⟨agreement.logs, ?_⟩
      intro node idx entry member
      rw [emissions_append_singleton, List.append_nil] at member
      exact agreement.applied node idx entry member

/-- In every run of a cluster in which each client entry is appended where no other server holds
a different entry, the entries that servers apply at one index have the same term, id and
data. -/
theorem applied_entries_agree (cluster : Cluster Node) (trace : List (ClusterStep Node))
    (s : NetState Node (RaftServer Node) (Event Node) Message) (run : RunOf cluster trace s)
    (agree : ∀ t ∈ trace, AppendsAgree t) (first second : Node) (idx : Int)
    (entry entry' : RaftEntry) (applied : (first, .applylog idx entry) ∈ emissions trace)
    (applied' : (second, .applylog idx entry') ∈ emissions trace) :
    entry.term = entry'.term ∧ entry.id = entry'.id ∧ entry.data = entry'.data := by
  have agreement := RunOf.agreement run agree
  have same : entry.content = entry'.content :=
    agreement.logs first second idx _ _ (agreement.applied first idx entry applied)
      (agreement.applied second idx entry' applied')
  obtain ⟨term, rest⟩ := Prod.mk.inj same
  obtain ⟨id, data⟩ := Prod.mk.inj rest
  exact ⟨term, id, data⟩

/-- Two nodes lead term 1, are given the same client entry and have it acknowledged
by a third. -/
def sameClientEntry {n : ℕ} (first second client : Fin n) :
    List (NetEvent (Fin n) (Event (Fin n)) (Bool × Int × Int)) :=
  [electionAt first, electionAt second, deliverAt 0, deliverAt 2, deliverAt 2, deliverAt 2,
    .spontaneous first (.recvEntry client ⟨1, [1]⟩),
    .spontaneous second (.recvEntry client ⟨1, [1]⟩),
    deliverAt 2, deliverAt 11, deliverAt 4, deliverAt 10]

/-- Two servers apply an entry that the same client gave to both, at the same index. -/
theorem applied_entries_agree_of_three :
    (0, .applylog 1 ⟨1, 1, [1], 1⟩) ∈ emissions (clusterTrace (sameClientEntry (0 : Fin 3) 2 1)) ∧
      (2, .applylog 1 ⟨1, 1, [1], 1⟩) ∈ emissions (clusterTrace (sameClientEntry (0 : Fin 3) 2 1)) ∧
      ∀ entry,
        (2, .applylog 1 entry) ∈ emissions (clusterTrace (sameClientEntry (0 : Fin 3) 2 1)) →
        1 = entry.term ∧ 1 = entry.id ∧ [1] = entry.data :=
  ⟨by decide, by decide, fun entry => applied_entries_agree (ofMembers 3) _ _
    (run_traceOf (protocol (Fin 3)).network _ (sameClientEntry 0 2 1) (by decide)) (by decide)
    0 2 1 ⟨1, 1, [1], 1⟩ entry (by decide)⟩

/-- A node leads term 1 and applies a client entry that a second node acknowledged
without receiving it; the second node then leads term 2 and does the same with another entry
and a third node. -/
def twoClientEntries {n : ℕ} (first second client : Fin n) :
    List (NetEvent (Fin n) (Event (Fin n)) (Bool × Int × Int)) :=
  [electionAt first, deliverAt 0, deliverAt 1, .spontaneous first (.recvEntry client ⟨1, [1]⟩),
    deliverAt 1, deliverAt 5, electionAt second, deliverAt 6, deliverAt 6,
    .spontaneous second (.recvEntry client ⟨2, [2]⟩), deliverAt 7, deliverAt 10]

/-- Different entries are applied at index 1. -/
theorem different_entries_applied_at_one_index :
    RunOf (ofMembers 3) (clusterTrace (twoClientEntries 0 1 2))
        (clusterState (twoClientEntries 0 1 2)) ∧
      (0, .applylog 1 ⟨1, 1, [1], 1⟩) ∈
        emissions (clusterTrace (twoClientEntries (0 : Fin 3) 1 2)) ∧
      (1, .applylog 1 ⟨2, 2, [2], 1⟩) ∈
        emissions (clusterTrace (twoClientEntries (0 : Fin 3) 1 2)) :=
  ⟨run_traceOf _ _ _ (by decide), by decide, by decide⟩

end Cluster

end CppRaft
