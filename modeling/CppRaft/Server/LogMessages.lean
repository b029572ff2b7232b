import CppRaft.Server.Application

/-!
# What AppendEntries messages say about the sender's log

`send_appendentries` passes `next_idx` where the constructor takes the term before
the entries, adds no entries, and sends the number of heartbeats as commit index.
Such a message describes the log of its sender only while there is nothing to
describe.
-/

namespace CppRaft

open Machine

namespace RaftServer

variable {Node : Type}

/-- A message describes the log of its sender: it starts at an index of the log and names the
term there, it carries the entries that follow as far as it has room, and it announces no more
than what is committed. -/
structure DescribesLog (s : RaftServer Node) (ae : MsgAppendEntries) : Prop where
  previous : (ae.prevLogIdx = 0 ∧ ae.prevLogTerm = 0) ∨
    ∃ e, s.log.entryAt? ae.prevLogIdx = some e ∧ ae.prevLogTerm = e.term
  entries : ae.entries.map (fun e => (e.intId, e.data)) =
    ((s.log.drop ae.prevLogIdx.toNat).take maxNumOfAppendEntriesLog).map fun e => (e.id, e.data)
  commit : ae.leaderCommit ≤ s.commitIdx

/-- The messages `send_appendentries` builds describe an empty log, to a node with
`next_idx` zero. -/
theorem describesLog_new_iff (s : RaftServer Node) (term nextIdx leaderCommit : Int) :
    DescribesLog s (.new term 0 nextIdx 0 leaderCommit) ↔
      nextIdx = 0 ∧ s.log = [] ∧ leaderCommit ≤ s.commitIdx := by
  constructor
  · rintro ⟨previous, entries, commit⟩
    refine ⟨?_, ?_, commit⟩
    · rcases previous with ⟨-, zero⟩ | ⟨e, found, -⟩
      · exact zero
      · have low : (1 : Int) ≤ 0 := (RaftLogger.entryAt?_eq_some_bounds found).1
        exact absurd low (by decide)
    · simpa [MsgAppendEntries.new, maxNumOfAppendEntriesLog] using entries
  · rintro ⟨rfl, empty, commit⟩
    exact ⟨Or.inl ⟨rfl, rfl⟩, by simp [MsgAppendEntries.new, empty], commit⟩

/-- The counters that outgoing messages are built from. -/
structure SenderCounters (s : RaftServer Node) : Prop where
  heartbeats : 0 ≤ s.leaderCommit
  positive : 1 ≤ s.currentIdx
  uncommitted : s.log = [] → s.commitIdx = 0

/-- A step that touches neither the log nor the commit index and lowers no counter. -/
theorem SenderCounters.of_frame {s t : RaftServer Node} (counters : SenderCounters s)
    (heartbeats : s.leaderCommit ≤ t.leaderCommit) (index : t.currentIdx = s.currentIdx)
    (log : t.log = s.log) (commit : t.commitIdx = s.commitIdx) : SenderCounters t where
  heartbeats := Int.le_trans counters.heartbeats heartbeats
  positive := index ▸ counters.positive
  uncommitted := by
    rw [log, commit]
    exact counters.uncommitted

/-- A message that `send_appendentries` builds in a reachable state. -/
theorem SenderCounters.describesLog_appendentriesFor_iff {s : RaftServer Node}
    (counters : SenderCounters s) (node : Node) :
    DescribesLog s (appendentriesFor node s) ↔
      s.log = [] ∧ s.leaderCommit = 0 ∧ (s.table.record node).nextIdx = 0 := by
  rw [appendentriesFor, describesLog_new_iff]
  have heartbeats := counters.heartbeats
  constructor
  · rintro ⟨next, empty, commit⟩
    have uncommitted := counters.uncommitted empty
    exact ⟨empty, by omega, next⟩
  · rintro ⟨empty, none, next⟩
    have uncommitted := counters.uncommitted empty
    exact ⟨next, empty, by omega⟩

variable [DecidableEq Node]

omit [DecidableEq Node] in
/-- An AppendEntries call that leaves the log empty has found it empty, so that step 5 had
no last entry and committed nothing. -/
theorem AppendResult.senderCounters {asResponce : Bool} {node : Node} {ae : MsgAppendEntries}
    {stack : Int × Int} {s : RaftServer Node} {effect : Effect (RaftServer Node) (Action Node)}
    (appended : AppendResult asResponce node ae stack s effect) (counters : SenderCounters s) :
    SenderCounters effect.state := by
  cases appended with
  | refused _ =>
      obtain ⟨elapsed, state, votedFor, noticed, -⟩ := noticeLeader_frame asResponce ae s
      rw [noticed]
      exact counters.of_frame (Int.le_refl _) rfl rfl rfl
  | accepted kept _ _ keeps elapsed commit last applied advanced =>
      refine ⟨counters.heartbeats, ?_, fun empty => ?_⟩
      · have positive := counters.positive
        simp only [acceptAppend]
        omega
      · obtain ⟨rfl, -⟩ := List.append_eq_nil_iff.mp empty
        cases advanced with
        | unchanged _ => exact counters.uncommitted (keeps.log_eq_nil rfl)
        | assigned idx target _ _ _ _ => simp [commitTarget] at target

/-- An AppendEntries response commits nothing of an empty log, as the commit loop finds no
entry in it. -/
theorem ResponseResult.senderCounters {node : Node} {r : MsgAppendentriesResponse}
    {s s' : RaftServer Node} {emitted : List (Action Node)}
    (responded : ResponseResult node r s s' emitted) (together : s.lastAppliedIdx = s.commitIdx)
    (counters : SenderCounters s) : SenderCounters s' := by
  cases responded with
  | failed _ => exact counters
  | succeeded _ marked mark _ _ committed =>
      have agree := committed.applied.together together
      have unmoved := committed.lastAppliedIdx_eq
      obtain ⟨commit, last, rfl⟩ := committed.applied.frame
      refine ⟨counters.heartbeats, counters.positive, fun empty => ?_⟩
      have unmarked : s.log = [] := by
        have same := mark.length_eq
        rw [show marked = [] from empty] at same
        exact List.eq_nil_of_length_eq_zero same.symm
      calc commit = last := agree.symm
        _ = s.lastAppliedIdx := unmoved empty
        _ = s.commitIdx := together
        _ = 0 := counters.uncommitted unmarked

/-- One step keeps the counters that a message is made of. -/
theorem StepResult.senderCounters {s : RaftServer Node} {event : Event Node}
    {effect : Effect (RaftServer Node) (Action Node)} (result : StepResult s event effect)
    (together : s.lastAppliedIdx = s.commitIdx) (counters : SenderCounters s) :
    SenderCounters effect.state := by
  cases result with
  | appendentries appended => exact appended.senderCounters counters
  | appendentriesResponse responded => exact responded.senderCounters together counters
  | requestvote _ _ => exact counters.of_frame (Int.le_refl _) rfl rfl rfl
  | requestvoteResponse _ ballot =>
      cases ballot with
      | ignored _ => exact counters
      | refused _ _ => exact counters.of_frame (Int.le_refl _) rfl rfl rfl
      | counted _ _ => exact counters.of_frame (Int.le_refl _) rfl rfl rfl
      | elected _ _ _ =>
          rw [becomeLeader_eq]
          exact counters.of_frame (Int.le_refl _) rfl rfl rfl
  | refusedEntry _ _ => exact counters
  | appendedEntry _ _ =>
      refine ⟨counters.heartbeats, ?_, fun empty => ?_⟩
      · exact Int.le_trans counters.positive (Int.le.intro 1 rfl)
      · simp [appendClient] at empty
  | pending due _ _ =>
      rw [hasPendingEntry_of_together together] at due
      cases due
  | timer timed =>
      cases timed with
      | waited _ => exact counters.of_frame (Int.le_refl _) rfl rfl rfl
      | heartbeat _ => exact counters.of_frame (Int.le.intro 1 rfl) rfl rfl rfl
      | stood _ => exact counters.of_frame (Int.le_refl _) rfl rfl rfl

/-- In every run the counters that a message is made of are those of the log and of the
commits. -/
theorem RunFrom.senderCounters {config : Config Node} {trace : List (Step Node)}
    {s : RaftServer Node} (run : RunFrom config trace s) : SenderCounters s := by
  apply run.invariant (fun _ s => SenderCounters s)
  · exact ⟨Int.le_refl 0, Int.le_refl 1, fun _ => rfl⟩
  · intro trace s event effect reached counters stepped
    exact (step_result stepped).senderCounters (RunFrom.together reached) counters

/-- The sender has nothing to describe: its log is empty and stays so, it has sent no
heartbeat, and `next_idx` of the addressed node is zero. -/
def NothingToDescribe (s : RaftServer Node) (node : Node) : Event Node → Prop
  | .recvAppendentriesResponse _ _ =>
      s.log = [] ∧ s.leaderCommit = 0 ∧ (s.table.record node).nextIdx = 0
  | .recvEntry _ e =>
      s.log = [] ∧ s.leaderCommit = 0 ∧ (s.table.record node).nextIdx = 0 ∧ e.id = 0
  | _ => False

/-- In every run, an AppendEntries message describes the log of its sender exactly when the
sender has nothing to describe. -/
theorem appendentries_describes_log_iff (config : Config Node) (trace : List (Step Node))
    (s : RaftServer Node) (run : RunFrom config trace s) (t : Step Node) (member : t ∈ trace)
    (node : Node) (ae : MsgAppendEntries) (sent : .send node (.appendentries ae) ∈ t.emitted) :
    DescribesLog t.after ae ↔ NothingToDescribe t.before node t.event := by
  obtain ⟨past, earlier, stepped⟩ := run.at_mem member
  have counters := RunFrom.senderCounters earlier
  have message := (step_result stepped).sends (RunFrom.hasPendingEntry_eq_false earlier) sent
  have heartbeats := counters.heartbeats
  have positive := counters.positive
  simp only at message
  generalize t.after = after, t.event = event at message ⊢
  cases message with
  | resend _ => exact counters.describesLog_appendentriesFor_iff node
  | @refusedEntry client _ e zero =>
      rw [counters.describesLog_appendentriesFor_iff node]
      simp [NothingToDescribe, (MsgEntry.intId_eq_zero_iff e).mp zero]
  | @appendedEntry client _ e nonzero =>
      have id : e.id ≠ 0 := fun zero => nonzero ((MsgEntry.intId_eq_zero_iff e).mpr zero)
      simp [appendentriesFor, describesLog_new_iff, appendClient, NothingToDescribe, id]
  | heartbeat log commit =>
      rw [describesLog_new_iff, log, commit]
      simp only [NothingToDescribe, iff_false]
      rintro ⟨-, empty, announced⟩
      have uncommitted := counters.uncommitted empty
      omega
  | elected =>
      rw [describesLog_new_iff]
      simp only [NothingToDescribe, iff_false]
      rintro ⟨next, -⟩
      omega

/-- The first message of a fresh member describes its empty log. -/
theorem appendentries_describes_log_of_fresh_member :
    DescribesLog (stateOn (0 : Fin 3) [.recvAppendentriesResponse 1 ⟨0, 0, 0, 0⟩])
      (.new 0 0 0 0 0) :=
  (appendentries_describes_log_iff (.member 0) _ _
    (run_traceOf (machine (Fin 3)) _ [.recvAppendentriesResponse 1 ⟨0, 0, 0, 0⟩] (by decide))
    _ List.mem_cons_self 1 (.new 0 0 0 0 0) (by decide)).mpr ⟨rfl, rfl, rfl⟩

/-- The first message of a leader of three nodes names term 2 before index zero. -/
theorem first_appendentries_misdescribes_log :
    RunFrom (.member 0) (traceOn (0 : Fin 3) (candidacy 1000 (0, 0) ⟨0, 1⟩ [1]))
        (stateOn 0 (candidacy 1000 (0, 0) ⟨0, 1⟩ [1])) ∧
      Action.send 1 (.appendentries (.new 1 0 2 0 0)) ∈
        emissions (traceOn (0 : Fin 3) (candidacy 1000 (0, 0) ⟨0, 1⟩ [1])) ∧
      ¬DescribesLog (stateOn (0 : Fin 3) (candidacy 1000 (0, 0) ⟨0, 1⟩ [1]))
        (.new 1 0 2 0 0) := by
  refine ⟨run_traceOf _ _ _ (by decide), by decide, ?_⟩
  rw [describesLog_new_iff]
  rintro ⟨two, -⟩
  exact absurd two (by decide)

end RaftServer

end CppRaft
