import CppRaft.Server.Inversion

/-!
# Which entries reach the state machine

`last_applied_idx` moves in two ways: `apply_entry` hands the next entry to the
state machine, and step 5 of `recv_appendentries` assigns the index before it
applies anything. The commit index follows it in both, so the two never separate
and the apply branch of `periodic` is dead. The assignment skips or repeats
entries unless it assigns the index that is there already.
-/

namespace CppRaft

open Machine

variable {Node : Type}

/-- Actions without an application apply nothing. -/
theorem appliedIdxs_eq_nil {emitted : List (Action Node)}
    (quiet : ∀ action ∈ emitted, action.appliedIdx? = none) : appliedIdxs emitted = [] :=
  List.filterMap_eq_nil_iff.mpr quiet

/-- And the other way round. -/
theorem applylog_not_mem_of_appliedIdxs_eq_nil {emitted : List (Action Node)}
    (quiet : appliedIdxs emitted = []) (idx : Int) (entry : RaftEntry) :
    .applylog idx entry ∉ emitted := by
  intro member
  have none := List.filterMap_eq_nil_iff.mp quiet _ member
  cases none

namespace RaftServer

/-- Sending applies nothing. -/
theorem appliedIdxs_sends (nodes : List Node) (msg : Node → Message) (s : RaftServer Node) :
    appliedIdxs (s.sends nodes msg) = [] := by
  apply appliedIdxs_eq_nil
  intro action member
  obtain ⟨-, node, -, rfl⟩ := mem_sends.mp member
  rfl

/-- The log that steps 2 and 3 leave of a message that is not refused. -/
def keptLog? (ae : MsgAppendEntries) (s : RaftServer Node) : Option RaftLogger :=
  if ae.term < s.currentTerm then none
  else
    match deleteConflicts ae s.log with
    | .returned kept => kept
    | _ => none

/-- The log that steps 2 and 3 leave, by their return value. -/
theorem keptLog?_eq_some_iff (ae : MsgAppendEntries) (s : RaftServer Node) (kept : RaftLogger) :
    keptLog? ae s = some kept ↔
      s.currentTerm ≤ ae.term ∧ deleteConflicts ae s.log = .returned (some kept) := by
  unfold keptLog?
  by_cases stale : ae.term < s.currentTerm
  · simp [stale, Int.not_le.mpr stale]
  · rcases deleteConflicts_cases ae s.log with refused | ⟨log, accepted, -⟩
    · simp [stale, refused]
    · simp [stale, accepted, Int.not_lt.mp stale]

/-- A message that is refused keeps no log. -/
theorem keptLog?_eq_none {ae : MsgAppendEntries} {s : RaftServer Node}
    (reason : ae.term < s.currentTerm ∨ deleteConflicts ae s.log = .returned none) :
    keptLog? ae s = none := by
  unfold keptLog?
  rcases reason with stale | conflict
  · rw [if_pos stale]
  · simp [conflict]

/-- Steps 1 and 2 pass a message that is not of an old term and whose previous entry the log
has. -/
theorem keptLog?_isSome_iff (ae : MsgAppendEntries) (s : RaftServer Node) :
    (keptLog? ae s).isSome ↔ s.currentTerm ≤ ae.term ∧
      (ae.prevLogIdx = 0 ∨
        (s.log.entryAt? ae.prevLogIdx).map RaftEntry.term = some ae.prevLogTerm) := by
  simp only [Option.isSome_iff_exists, keptLog?_eq_some_iff, exists_and_left]
  refine and_congr_right fun _ => ⟨?_, ?_⟩
  · rintro ⟨kept, deleted⟩
    rcases deleteConflicts_cases ae s.log with refused | ⟨_, _, keeps⟩
    · rw [refused] at deleted
      cases deleted
    · cases keeps with
      | all first => exact Or.inl first
      | upTo found sameTerm => exact Or.inr (by simp [found, sameTerm])
  · rintro (first | matched)
    · exact ⟨_, deleteConflicts_of_keeps (.all first)⟩
    · obtain ⟨entry, found, sameTerm⟩ := Option.map_eq_some_iff.mp matched
      exact ⟨_, deleteConflicts_of_keeps (.upTo found sameTerm)⟩

/-- The index from which the applications of a step count on. -/
def applyStart (s : RaftServer Node) : Event Node → Int
  | .recvAppendentries _ _ ae _ =>
      ((keptLog? ae s).bind (commitTarget ae s.commitIdx)).getD s.lastAppliedIdx
  | _ => s.lastAppliedIdx

/-- Accepting a message applies nothing by itself; the commit loop does. -/
theorem appliedIdxs_acceptActions (node : Node) (ae : MsgAppendEntries) (stack : Int × Int)
    (kept : RaftLogger) (s : RaftServer Node) :
    appliedIdxs (acceptActions node ae stack kept s) = [] := by
  have pushes (indices : List Int) :
      appliedIdxs (indices.map (Action.appended : Int → Action Node)) = [] := by
    apply appliedIdxs_eq_nil
    intro action member
    obtain ⟨idx, -, rfl⟩ := List.mem_map.mp member
    rfl
  rw [acceptActions, appliedIdxs_append, pushes, replyActions, appliedIdxs_sends, List.append_nil]

/-- What a step does to the applied entries: it applies `count` consecutive ones. -/
structure Applies (s : RaftServer Node) (start : Int)
    (effect : Effect (RaftServer Node) (Action Node)) : Prop where
  together : effect.state.lastAppliedIdx = effect.state.commitIdx
  callbacks : effect.state.callbacks = s.callbacks
  consecutive : ∃ count : ℕ, effect.state.lastAppliedIdx = start + count ∧
    appliedIdxs effect.emitted = if s.callbacks.applylog then indicesFrom start count else []

/-- A step that touches neither index and applies nothing. -/
theorem Applies.of_frame {s : RaftServer Node} {effect : Effect (RaftServer Node) (Action Node)}
    (together : s.lastAppliedIdx = s.commitIdx)
    (last : effect.state.lastAppliedIdx = s.lastAppliedIdx)
    (commit : effect.state.commitIdx = s.commitIdx)
    (callbacks : effect.state.callbacks = s.callbacks)
    (quiet : appliedIdxs effect.emitted = []) : Applies s s.lastAppliedIdx effect where
  together := by rw [last, commit, together]
  callbacks := callbacks
  consecutive := ⟨0, by simp [last], by simp [quiet, indicesFrom]⟩

/-- The applications of a run so far are those of the indices up to the last applied one. -/
def AppliedSoFar (trace : List (Step Node)) (s : RaftServer Node) : Prop :=
  0 ≤ s.lastAppliedIdx ∧
    appliedIdxs (emissions trace) =
      if s.callbacks.applylog then indicesFrom 0 s.lastAppliedIdx.toNat else []

/-- One step that counts on from the last applied index extends the applications by the
next ones. -/
theorem AppliedSoFar.step {trace : List (Step Node)} {s : RaftServer Node} {event : Event Node}
    {effect : Effect (RaftServer Node) (Action Node)} (sofar : AppliedSoFar trace s)
    (applies : Applies s s.lastAppliedIdx effect) :
    AppliedSoFar (trace ++ [⟨s, event, effect.state, effect.emitted⟩]) effect.state := by
  obtain ⟨low, indices⟩ := sofar
  obtain ⟨count, moved, more⟩ := applies.consecutive
  refine ⟨by omega, ?_⟩
  rw [emissions_append_singleton, appliedIdxs_append, indices, more, applies.callbacks]
  split
  · have total : effect.state.lastAppliedIdx.toNat = s.lastAppliedIdx.toNat + count := by omega
    rw [total, indicesFrom_add]
    congr 2
    omega
  · rfl

variable [DecidableEq Node]

/-- Answering a client applies nothing. -/
theorem appliedIdxs_entryActions (node : Node) (id : UInt32) (result : Int)
    (s : RaftServer Node) : appliedIdxs (entryActions node id result s) = [] := by
  rw [entryActions, appliedIdxs_append, appliedIdxs_sends, appliedIdxs_sends, List.append_nil]

/-- The timer applies nothing while the two indices are together: its branch for pending
entries is dead. -/
theorem TimerResult.applies {msec : Int} {rand : ℕ × ℕ} {s : RaftServer Node}
    {effect : Effect (RaftServer Node) (Action Node)} (timed : TimerResult msec rand s effect)
    (together : s.lastAppliedIdx = s.commitIdx) : Applies s s.lastAppliedIdx effect := by
  cases timed with
  | waited _ => exact .of_frame together rfl rfl rfl rfl
  | heartbeat _ => exact .of_frame together rfl rfl rfl (appliedIdxs_sends _ _ _)
  | stood _ => exact .of_frame together rfl rfl rfl (appliedIdxs_sends _ _ _)

omit [DecidableEq Node] in
/-- The apply branch of `periodic` needs an applied index below the commit index. -/
theorem hasPendingEntry_of_together {s : RaftServer Node}
    (together : s.lastAppliedIdx = s.commitIdx) : s.hasPendingEntry = false := by
  simp only [hasPendingEntry, decide_eq_false_iff_not]
  omega

/-- A step of a server whose two indices agree: they agree afterwards, and what it applied
lies between their old and their new place, in order. -/
theorem StepResult.applies {s : RaftServer Node} {event : Event Node}
    {effect : Effect (RaftServer Node) (Action Node)} (result : StepResult s event effect)
    (together : s.lastAppliedIdx = s.commitIdx) : Applies s (applyStart s event) effect := by
  cases result with
  | @appendentries asResponce node ae stack _ appended =>
      cases appended with
      | refused reason =>
          obtain ⟨elapsed, state, votedFor, noticed, -⟩ := noticeLeader_frame asResponce ae s
          have start : applyStart s (.recvAppendentries asResponce node ae stack) =
              s.lastAppliedIdx := by
            simp [applyStart, keptLog?_eq_none reason]
          rw [start, noticed]
          exact .of_frame together rfl rfl rfl (appliedIdxs_sends _ _ _)
      | accepted kept reached deleted _ elapsed commit last applied advanced =>
          have start : applyStart s (.recvAppendentries asResponce node ae stack) =
              (commitTarget ae s.commitIdx kept).getD s.lastAppliedIdx := by
            simp [applyStart, (keptLog?_eq_some_iff ae s kept).mpr ⟨reached, deleted⟩]
          rw [start]
          cases advanced with
          | unchanged skipped =>
              rw [skipped]
              exact .of_frame together rfl rfl rfl (appliedIdxs_acceptActions _ _ _ _ _)
          | assigned idx target count _ indices _ =>
              rw [target]
              refine ⟨rfl, rfl, count, rfl, ?_⟩
              rw [appliedIdxs_append, indices, appliedIdxs_acceptActions, List.append_nil,
                Option.getD_some]
  | appendentriesResponse responded =>
      cases responded with
      | failed _ => exact .of_frame together rfl rfl rfl (appliedIdxs_sends _ _ _)
      | succeeded _ marked _ _ _ committed =>
          have agree := committed.applied.together together
          obtain ⟨commit, last, rfl⟩ := committed.applied.frame
          exact ⟨agree, rfl, committed.applied.consecutive⟩
  | requestvote node vr => exact .of_frame together rfl rfl rfl (appliedIdxs_sends _ _ _)
  | requestvoteResponse _ ballot =>
      cases ballot with
      | ignored _ => exact .of_frame together rfl rfl rfl rfl
      | refused _ _ => exact .of_frame together rfl rfl rfl rfl
      | counted _ _ => exact .of_frame together rfl rfl rfl rfl
      | elected _ _ _ =>
          rw [becomeLeader_eq]
          exact .of_frame together rfl rfl rfl (appliedIdxs_sends _ _ _)
  | refusedEntry _ _ => exact .of_frame together rfl rfl rfl (appliedIdxs_entryActions _ _ _ _)
  | appendedEntry _ _ => exact .of_frame together rfl rfl rfl (appliedIdxs_entryActions _ _ _ _)
  | pending due _ _ =>
      rw [hasPendingEntry_of_together together] at due
      cases due
  | timer timed => exact timed.applies together

/-- The two indices agree in every reachable state. -/
theorem RunFrom.together {config : Config Node} {trace : List (Step Node)} {s : RaftServer Node}
    (run : RunFrom config trace s) : s.lastAppliedIdx = s.commitIdx := by
  apply run.invariant (fun _ s => s.lastAppliedIdx = s.commitIdx)
  · rfl
  · intro trace s event effect _ together stepped
    exact ((step_result stepped).applies together).together

/-- No reachable state takes the apply branch of `periodic`. -/
theorem RunFrom.hasPendingEntry_eq_false {config : Config Node} {trace : List (Step Node)}
    {s : RaftServer Node} (run : RunFrom config trace s) : s.hasPendingEntry = false :=
  hasPendingEntry_of_together (RunFrom.together run)

/-- In every reachable state the applied and the commit index are equal, and `periodic` goes
straight to its timer. -/
theorem applied_index_is_commit_index (config : Config Node) (trace : List (Step Node))
    (s : RaftServer Node) (run : RunFrom config trace s) :
    s.lastAppliedIdx = s.commitIdx ∧ s.hasPendingEntry = false ∧
      ∀ msec rand, periodic msec rand s = (advanceTimer msec rand s).returning 1 := by
  have quiet := RunFrom.hasPendingEntry_eq_false run
  refine ⟨RunFrom.together run, quiet, fun msec rand => ?_⟩
  unfold periodic
  rw [quiet]
  rfl

/-- Two entries, one of which a later message commits. -/
def commitSecondEntry (leader : Node) : List (Event Node) :=
  [.recvAppendentries true leader ⟨1, 0, 0, 0, [⟨1, [1]⟩, ⟨2, [2]⟩], by decide⟩ (0, 0),
    .recvAppendentries true leader ⟨1, 2, 1, 1, [], by decide⟩ (0, 0)]

/-- A follower is told to commit two entries, and has applied as many. -/
theorem applied_index_is_commit_index_of_member :
    (stateOn (0 : Fin 3) (commitSecondEntry 1)).commitIdx = 2 ∧
      (stateOn (0 : Fin 3) (commitSecondEntry 1)).lastAppliedIdx =
        (stateOn (0 : Fin 3) (commitSecondEntry 1)).commitIdx :=
  ⟨by decide, (applied_index_is_commit_index (.member 0) _ _
    (run_traceOf (machine (Fin 3)) _ (commitSecondEntry 1) (by decide))).1⟩

/-- The message commits what has been applied: where its commit index is ahead, the log it
keeps is empty or ends with the entry whose id is the last applied index. -/
def CommitsApplied (s : RaftServer Node) : Event Node → Prop
  | .recvAppendentries _ _ ae _ =>
      s.commitIdx < ae.leaderCommit →
        ∀ e ∈ (keptLog? ae s).bind List.getLast?, e.id = s.lastAppliedIdx
  | _ => True

instance (s : RaftServer Node) (event : Event Node) : Decidable (CommitsApplied s event) := by
  unfold CommitsApplied
  split <;> infer_instance

omit [DecidableEq Node] in
/-- Step 5 then assigns the index that is there already, so that the apply loop starts where
the last one ended and no entry is skipped. -/
theorem CommitsApplied.applyStart_eq {s : RaftServer Node} {event : Event Node}
    (commits : CommitsApplied s event) (together : s.lastAppliedIdx = s.commitIdx) :
    applyStart s event = s.lastAppliedIdx := by
  cases event with
  | recvAppendentries asResponce node ae stack =>
      simp only [applyStart]
      by_cases behind : s.commitIdx < ae.leaderCommit
      · have tailId := commits behind
        cases kept : keptLog? ae s with
        | none => rfl
        | some log =>
            rw [kept] at tailId
            simp only [Option.bind_some, commitTarget, behind, ↓reduceIte] at tailId ⊢
            cases tail : log.getLast? with
            | none => rfl
            | some e =>
                have same := tailId e tail
                simp only [Option.map_some, Option.getD_some]
                rw [if_pos (by omega), same]
      · cases keptLog? ae s <;> simp [commitTarget, behind]
  | _ => rfl

/-- In every run whose messages commit only what has been applied, the applied indices are
`1, 2, ..., k` in this order. -/
theorem applied_indices_are_consecutive (config : Config Node) (trace : List (Step Node))
    (s : RaftServer Node) (run : RunFrom config trace s)
    (commits : ∀ t ∈ trace, CommitsApplied t.before t.event) :
    ∃ k, appliedIdxs (emissions trace) = indicesFrom 0 k := by
  have sofar : AppliedSoFar trace s := by
    apply run.invariant_along AppliedSoFar ⟨Int.le_refl 0, ?_⟩ ?_
      (along_of_forall (Q := fun t => CommitsApplied t.before t.event) commits)
    · simp [indicesFrom, init, new]
    · intro trace s event effect reached sofar stepped commits
      have together := RunFrom.together reached
      have applies := (step_result stepped).applies together
      rw [commits.applyStart_eq together] at applies
      exact sofar.step applies
  rw [sofar.2]
  split
  · exact ⟨_, rfl⟩
  · exact ⟨0, rfl⟩

/-- Two client entries, each acknowledged once, and a message that is ahead of them. -/
def acknowledgeTwoEntries (peer client : Node) : List (Event Node) :=
  [.recvEntry client ⟨1, [1]⟩, .recvAppendentriesResponse peer ⟨0, 1, 1, 1⟩,
    .recvEntry client ⟨2, [2]⟩, .recvAppendentriesResponse peer ⟨0, 1, 2, 2⟩,
    .recvAppendentries true peer ⟨1, 0, 0, 3, [], by decide⟩ (0, 0)]

/-- A leader whose two entries are acknowledged applies them in order. -/
theorem applied_indices_are_consecutive_of_member :
    appliedIdxs (emissions (traceOn (0 : Fin 3) (acknowledgeTwoEntries 1 2))) = [1, 2] ∧
      ∃ k, appliedIdxs (emissions (traceOn (0 : Fin 3) (acknowledgeTwoEntries 1 2))) =
        indicesFrom 0 k :=
  ⟨by decide, applied_indices_are_consecutive (.member 0) _ _
    (run_traceOf (machine (Fin 3)) _ (acknowledgeTwoEntries 1 2) (by decide)) (by decide)⟩

/-- The second entry is applied and the first never is. -/
theorem applied_indices_skip_first :
    RunFrom (.member 0) (traceOn (0 : Fin 3) (commitSecondEntry 1))
        (stateOn 0 (commitSecondEntry 1)) ∧
      ¬∃ k, appliedIdxs (emissions (traceOn (0 : Fin 3) (commitSecondEntry 1))) =
        indicesFrom 0 k := by
  refine ⟨run_traceOf _ _ _ (by decide), ?_⟩
  rintro ⟨k, consecutive⟩
  have second : appliedIdxs (emissions (traceOn (0 : Fin 3) (commitSecondEntry 1))) = [2] := by
    decide
  rw [second] at consecutive
  cases k with
  | zero => simp [indicesFrom] at consecutive
  | succ k => simp [indicesFrom, List.range_succ_eq_map] at consecutive

end RaftServer

end CppRaft
