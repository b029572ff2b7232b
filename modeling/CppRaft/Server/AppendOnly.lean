import CppRaft.Server.LogMessages

/-!
# Logs that only client entries extend

The messages `send_appendentries` builds start at index zero and carry no entries.
A server that receives no others keeps its log: only its own clients add to it, and
what it hands to the state machine stays at its index.
-/

namespace CppRaft

open Machine

namespace RaftLogger

/-- What the entry at an index says. -/
def contentAt? (log : RaftLogger) (idx : Int) : Option (Int × Int × List UInt8) :=
  (log.entryAt? idx).map RaftEntry.content

/-- Contents are read off the contents of the log. -/
theorem contentAt?_eq (log : RaftLogger) (idx : Int) :
    log.contentAt? idx =
      if 1 ≤ idx then (log.map RaftEntry.content)[(idx - 1).toNat]? else none := by
  unfold contentAt? entryAt?
  split
  · rw [List.getElem?_map]
  · rfl

/-- A log whose contents extend those of another has them at the same indices. -/
theorem contentAt?_of_map_eq_append {log longer : RaftLogger}
    {more : List (Int × Int × List UInt8)}
    (extension : longer.map RaftEntry.content = log.map RaftEntry.content ++ more) {idx : Int}
    {content : Int × Int × List UInt8} (found : log.contentAt? idx = some content) :
    longer.contentAt? idx = some content := by
  rw [contentAt?_eq] at found ⊢
  split at found
  · rw [if_pos ‹_›, extension, List.getElem?_append_left (List.getElem?_eq_some_iff.mp found).1]
    exact found
  · cases found

/-- A log extended by at most one content has it at the next index, and what it had
elsewhere. -/
theorem contentAt?_eq_some_cases {log longer : RaftLogger} {more : Option (Int × Int × List UInt8)}
    (extension : longer.map RaftEntry.content = log.map RaftEntry.content ++ more.toList)
    {idx : Int} {content : Int × Int × List UInt8}
    (found : longer.contentAt? idx = some content) :
    log.contentAt? idx = some content ∨ idx = log.length + 1 ∧ more = some content := by
  rw [contentAt?_eq] at found ⊢
  split at found
  · rw [if_pos ‹_›]
    rw [extension] at found
    by_cases old : (idx - 1).toNat < (log.map RaftEntry.content).length
    · rw [List.getElem?_append_left old] at found
      exact Or.inl found
    · rw [List.getElem?_append_right (Nat.not_lt.mp old)] at found
      cases more with
      | none => cases found
      | some last =>
          have inside := (List.getElem?_eq_some_iff.mp found).1
          rw [List.length_map, Option.toList_some, List.length_singleton] at inside
          rw [List.length_map] at old found
          have position : (idx - 1).toNat - log.length = 0 := by omega
          rw [position] at found
          exact Or.inr ⟨by omega, found⟩
  · cases found

end RaftLogger

namespace RaftServer

variable {Node : Type}

/-- An AppendEntries message that leaves the log of its receiver alone. -/
def CarriesNothing : Event Node → Prop
  | .recvAppendentries _ _ ae _ => ae.prevLogIdx = 0 ∧ ae.entries = []
  | _ => True

/-- What a client entry writes to the log. -/
def written? (s : RaftServer Node) : Event Node → Option (Int × Int × List UInt8)
  | .recvEntry _ e => if e.intId = 0 then none else some (s.currentTerm, e.intId, e.data)
  | _ => none

/-- A step extends the log by what a client writes, and applies entries that are there. -/
structure Grows (s : RaftServer Node) (event : Event Node)
    (effect : Effect (RaftServer Node) (Action Node)) : Prop where
  log : effect.state.log.map RaftEntry.content =
    s.log.map RaftEntry.content ++ (written? s event).toList
  applied : ∀ idx entry, .applylog idx entry ∈ effect.emitted →
    s.log.contentAt? idx = some entry.content

/-- A step that leaves the log alone and applies nothing. -/
theorem Grows.of_frame {s : RaftServer Node} {event : Event Node}
    {effect : Effect (RaftServer Node) (Action Node)} (unwritten : written? s event = none)
    (log : effect.state.log = s.log) (quiet : appliedIdxs effect.emitted = []) :
    Grows s event effect where
  log := by rw [log, unwritten, Option.toList_none, List.append_nil]
  applied idx entry member :=
    absurd member (applylog_not_mem_of_appliedIdxs_eq_nil quiet idx entry)

/-- A message without entries deletes nothing and appends nothing: only the indices move. -/
theorem AppendResult.grows {asResponce : Bool} {node : Node} {ae : MsgAppendEntries}
    {stack : Int × Int} {s : RaftServer Node} {effect : Effect (RaftServer Node) (Action Node)}
    (result : AppendResult asResponce node ae stack s effect)
    (nothing : CarriesNothing (.recvAppendentries asResponce node ae stack)) :
    Grows s (.recvAppendentries asResponce node ae stack) effect := by
  obtain ⟨first, empty⟩ := nothing
  cases result with
  | refused _ => exact .of_frame rfl (noticeLeader_log _ _ _) (appliedIdxs_sends _ _ _)
  | accepted kept _ _ keeps elapsed commit last applied advanced =>
      obtain rfl := keeps.eq_of_prevLogIdx_eq_zero first
      refine ⟨by simp [acceptAppend, acceptedEntries, empty, written?], ?_⟩
      intro idx entry member
      rcases List.mem_append.mp member with application | answer
      · rw [RaftLogger.contentAt?, advanced.sound.found application, Option.map_some]
      · have quiet := appliedIdxs_acceptActions node ae stack s.log s
        exact absurd answer (applylog_not_mem_of_appliedIdxs_eq_nil quiet idx entry)

variable [DecidableEq Node]

/-- A response leaves the contents of the log alone. -/
theorem ResponseResult.grows {node : Node} {r : MsgAppendentriesResponse}
    {s s' : RaftServer Node} {emitted : List (Action Node)}
    (result : ResponseResult node r s s' emitted) :
    Grows s (.recvAppendentriesResponse node r) ⟨s', emitted⟩ := by
  cases result with
  | failed _ => exact .of_frame rfl rfl (appliedIdxs_sends _ _ _)
  | succeeded _ marked mark _ _ committed =>
      have sound := committed.applied.sound
      obtain ⟨commit, last, rfl⟩ := committed.applied.frame
      refine ⟨mark.content.trans (List.append_nil _).symm, ?_⟩
      intro idx entry member
      -- Marking changes counters only.
      have unmarked : s.log.contentAt? idx = RaftLogger.contentAt? marked idx := by
        rw [RaftLogger.contentAt?_eq, RaftLogger.contentAt?_eq, mark.content]
      rw [unmarked, RaftLogger.contentAt?]
      exact congrArg (Option.map RaftEntry.content) (sound.found member)

/-- A step of a server that is idle and is sent no entries: its log grows by what a client
wrote in this step, if anything, and what it applies is there. -/
theorem StepResult.grows {s : RaftServer Node} {event : Event Node}
    {effect : Effect (RaftServer Node) (Action Node)} (result : StepResult s event effect)
    (idle : s.hasPendingEntry = false) (nothing : CarriesNothing event) :
    Grows s event effect := by
  cases result with
  | appendentries appended => exact appended.grows nothing
  | appendentriesResponse responded => exact responded.grows
  | requestvote _ _ => exact .of_frame rfl rfl (appliedIdxs_sends _ _ _)
  | requestvoteResponse _ ballot =>
      cases ballot with
      | ignored _ => exact .of_frame rfl rfl rfl
      | refused _ _ => exact .of_frame rfl rfl rfl
      | counted _ _ => exact .of_frame rfl rfl rfl
      | elected _ _ _ =>
          rw [becomeLeader_eq]
          exact .of_frame rfl rfl (appliedIdxs_sends _ _ _)
  | refusedEntry _ zero =>
      exact .of_frame (if_pos zero) rfl (appliedIdxs_entryActions _ _ _ _)
  | @appendedEntry node e nonzero =>
      refine ⟨by simp [appendClient, written?, nonzero], fun idx entry member => ?_⟩
      rcases List.mem_cons.mp member with push | answer
      · cases push
      · have quiet := appliedIdxs_entryActions node e.id 1 (appendClient e s)
        exact absurd answer (applylog_not_mem_of_appliedIdxs_eq_nil quiet idx entry)
  | pending due _ _ =>
      rw [idle] at due
      cases due
  | timer timed =>
      cases timed with
      | waited _ => exact .of_frame rfl rfl rfl
      | heartbeat _ => exact .of_frame rfl rfl (appliedIdxs_sends _ _ _)
      | stood _ => exact .of_frame rfl rfl (appliedIdxs_sends _ _ _)

omit [DecidableEq Node] in
/-- The AppendEntries messages of a step start at index zero and carry no entries. -/
theorem Sends.carriesNothing {s after : RaftServer Node} {event : Event Node} {node : Node}
    {ae : MsgAppendEntries} (sends : Sends s event after node (.appendentries ae)) :
    ae.prevLogIdx = 0 ∧ ae.entries = [] := by
  cases sends <;> exact ⟨rfl, rfl⟩

omit [DecidableEq Node] in
/-- No message of a step carries an entry. -/
theorem Sends.entries_eq_nil {s after : RaftServer Node} {event : Event Node} {node : Node}
    {msg : Message} (sends : Sends s event after node msg) : msg.entries = [] := by
  cases sends <;> rfl

/-- No message of a run carries an entry. -/
theorem RunFrom.entries_eq_nil {config : Config Node} {trace : List (Step Node)}
    {s : RaftServer Node} (run : RunFrom config trace s) {node : Node} {msg : Message}
    (sent : .send node msg ∈ emissions trace) : msg.entries = [] := by
  obtain ⟨t, member, emitted⟩ := List.mem_flatMap.mp sent
  obtain ⟨past, earlier, stepped⟩ := run.at_mem member
  exact ((step_result stepped).sends (RunFrom.hasPendingEntry_eq_false earlier)
    emitted).entries_eq_nil

end RaftServer

end CppRaft
