import Mathlib.Data.Finset.Card
import CppRaft.Server.Application

/-!
# Who acknowledged a committed entry

The counter on an entry counts responses, whoever sent them. As long as a node
answers for an entry a second time only after half the nodes have answered for it,
the counter does not reach half before as many nodes have.
-/

namespace CppRaft

open Machine

namespace RaftServer

variable {Node : Type}

/-- A step keeps a prefix of the log and pushes entries with a fresh counter after it. -/
structure Pushes (s : RaftServer Node) (kept : RaftLogger) (pushed : List RaftEntry)
    (effect : Effect (RaftServer Node) (Action Node)) : Prop where
  isPrefixOf : kept <+: s.log
  log : effect.state.log = kept ++ pushed
  fresh : ∀ entry ∈ pushed, entry.numNodes = 0
  dated : ∀ idx, .appended idx ∈ effect.emitted ↔
    (kept.length : Int) < idx ∧ idx ≤ kept.length + pushed.length

/-- A step that leaves the log alone. -/
theorem Pushes.none {s : RaftServer Node} {effect : Effect (RaftServer Node) (Action Node)}
    (log : effect.state.log = s.log) (quiet : ∀ idx, .appended idx ∉ effect.emitted) :
    Pushes s s.log [] effect where
  isPrefixOf := List.prefix_refl _
  log := by rw [log, List.append_nil]
  fresh := by simp
  dated idx := by
    simp only [quiet idx, List.length_nil, false_iff]
    omega

/-- Sending pushes nothing. -/
theorem appended_not_mem_sends (nodes : List Node) (msg : Node → Message) (s : RaftServer Node)
    (idx : Int) : .appended idx ∉ s.sends nodes msg := by
  simp [mem_sends]

/-- A range of indices. -/
theorem mem_indicesFrom (start : Int) (count : ℕ) (idx : Int) :
    idx ∈ indicesFrom start count ↔ start < idx ∧ idx ≤ start + count := by
  unfold indicesFrom
  rw [List.mem_map]
  constructor
  · rintro ⟨offset, member, rfl⟩
    have := List.mem_range.mp member
    omega
  · rintro ⟨low, high⟩
    exact ⟨(idx - start - 1).toNat, List.mem_range.mpr (by omega), by omega⟩

variable [DecidableEq Node]

/-- What `recv_entry` sends is not a push. -/
theorem appended_not_mem_entryActions (node : Node) (id : UInt32) (result : Int)
    (s : RaftServer Node) (idx : Int) : .appended idx ∉ entryActions node id result s := by
  rw [entryActions, List.mem_append, not_or]
  exact ⟨appended_not_mem_sends _ _ _ _, appended_not_mem_sends _ _ _ _⟩

/-- The timer pushes no entry. -/
theorem TimerResult.pushes {msec : Int} {rand : ℕ × ℕ} {s : RaftServer Node}
    {effect : Effect (RaftServer Node) (Action Node)} (timed : TimerResult msec rand s effect) :
    Pushes s s.log [] effect := by
  cases timed with
  | waited _ => exact .none rfl (by simp)
  | heartbeat _ => exact .none rfl (appended_not_mem_sends _ _ _)
  | stood _ => exact .none rfl (appended_not_mem_sends _ _ _)

/-- Every step but a successful response keeps a prefix of the log and pushes after it, and
marks each push with its index. The tally of an entry starts at its push. -/
theorem StepResult.pushes {s : RaftServer Node} {event : Event Node}
    {effect : Effect (RaftServer Node) (Action Node)} (result : StepResult s event effect)
    (idle : s.hasPendingEntry = false)
    (unacknowledged : ∀ node r, event = .recvAppendentriesResponse node r → r.success ≠ 1) :
    ∃ kept pushed, Pushes s kept pushed effect := by
  cases result with
  | @appendentries asResponce node ae stack _ appended =>
      cases appended with
      | refused _ =>
          exact ⟨_, _, .none (by simp) (appended_not_mem_sends _ _ _)⟩
      | accepted kept _ _ keeps elapsed commit last applied advanced =>
          refine ⟨kept, _, keeps.isPrefixOf, rfl, ?_, ?_⟩
          · intro entry member
            obtain ⟨source, -, rfl⟩ := List.mem_map.mp member
            rfl
          · intro idx
            have indices := mem_indicesFrom kept.length (acceptedEntries ae.entries).length idx
            simp [advanced.sound.appended_not_mem, acceptActions, replyActions,
              appended_not_mem_sends, indices]
  | @appendentriesResponse node r _ _ responded =>
      cases responded with
      | failed _ => exact ⟨_, _, .none rfl (appended_not_mem_sends _ _ _)⟩
      | succeeded success _ _ _ _ _ => exact absurd success (unacknowledged node r rfl)
  | requestvote node vr => exact ⟨_, _, .none rfl (appended_not_mem_sends _ _ _)⟩
  | requestvoteResponse _ ballot =>
      cases ballot with
      | ignored _ => exact ⟨_, _, .none rfl (by simp)⟩
      | refused _ _ => exact ⟨_, _, .none rfl (by simp)⟩
      | counted _ _ => exact ⟨_, _, .none rfl (by simp)⟩
      | elected _ _ _ =>
          rw [becomeLeader_eq]
          exact ⟨_, _, .none rfl (appended_not_mem_sends _ _ _)⟩
  | refusedEntry _ _ => exact ⟨_, _, .none rfl (appended_not_mem_entryActions _ _ _ _)⟩
  | @appendedEntry node e _ =>
      refine ⟨s.log, _, List.prefix_refl _, rfl, ?_, fun idx => ?_⟩
      · intro entry member
        obtain rfl := List.mem_singleton.mp member
        rfl
      · simp only [List.mem_cons, appended_not_mem_entryActions, or_false, Action.appended.injEq,
          List.length_singleton]
        omega
  | pending due _ _ =>
      rw [idle] at due
      cases due
  | timer timed => exact ⟨_, _, timed.pushes⟩

/-- The node whose successful response covers an index, if the step handles one. -/
def acknowledger? (idx : Int) (t : Step Node) : Option Node :=
  match t.event with
  | .recvAppendentriesResponse node r =>
      if r.success = 1 ∧ r.firstIdx ≤ idx ∧ idx ≤ r.currentIdx then some node else none
  | _ => none

/-- The steps since the entry at an index was pushed. -/
def sinceAppended (idx : Int) (trace : List (Step Node)) : List (Step Node) :=
  trace.foldl (fun recent t => if .appended idx ∈ t.emitted then [] else recent ++ [t]) []

/-- The nodes that acknowledged an index since its entry was pushed, one for each response. -/
def ackers (idx : Int) (trace : List (Step Node)) : List Node :=
  (sinceAppended idx trace).filterMap (acknowledger? idx)

/-- The acknowledgers of an entry, step by step: a new entry at the index starts over, as
its counter does. -/
theorem ackers_append_singleton (idx : Int) (trace : List (Step Node)) (t : Step Node) :
    ackers idx (trace ++ [t]) =
      if .appended idx ∈ t.emitted then []
      else ackers idx trace ++ (acknowledger? idx t).toList := by
  unfold ackers sinceAppended
  rw [List.foldl_append]
  simp only [List.foldl_cons, List.foldl_nil]
  split
  · rfl
  · rw [List.filterMap_append]
    cases answer : acknowledger? idx t <;> simp [answer]

/-- The nodes beside the own one that acknowledged an index since its entry was pushed. -/
def ackNodes (s : RaftServer Node) (idx : Int) (trace : List (Step Node)) : Finset Node :=
  ((ackers idx trace).filter fun node => some node ≠ s.thisNode).toFinset

/-- The own node does not count as an acknowledger. -/
theorem mem_ackNodes {s : RaftServer Node} {idx : Int} {trace : List (Step Node)} {node : Node} :
    node ∈ ackNodes s idx trace ↔ node ∈ ackers idx trace ∧ some node ≠ s.thisNode := by
  simp [ackNodes]

/-- A successful response comes from another node, which has not acknowledged any of the
entries it covers since they were pushed, except for those that half the nodes have
acknowledged. -/
def AcknowledgesOnce (past : List (Step Node)) (t : Step Node) : Prop :=
  match t.event with
  | .recvAppendentriesResponse node r =>
      r.success = 1 → ∀ position ∈ List.range t.before.log.length,
        r.firstIdx ≤ position + 1 → (position + 1 : Int) ≤ r.currentIdx →
          (some node ≠ t.before.thisNode ∧ node ∉ ackers (position + 1) past) ∨
            t.before.table.count / 2 ≤ (ackNodes t.before (position + 1) past).card
  | _ => True

instance (past : List (Step Node)) (t : Step Node) : Decidable (AcknowledgesOnce past t) := by
  unfold AcknowledgesOnce
  split <;> infer_instance

/-- No counter of the log exceeds the number of nodes that acknowledged its entry, as long as
these are less than half. -/
def Tallied (trace : List (Step Node)) (s : RaftServer Node) : Prop :=
  ∀ idx entry, s.log.entryAt? idx = some entry →
    entry.numNodes ≤ (ackNodes s idx trace).card ∨
      s.table.count / 2 ≤ (ackNodes s idx trace).card

/-- A step that acknowledges nothing: kept entries keep their tally and pushed ones start
with none. -/
theorem Tallied.push {trace : List (Step Node)} {s : RaftServer Node} {event : Event Node}
    {effect : Effect (RaftServer Node) (Action Node)} {kept pushed : List RaftEntry}
    (tallied : Tallied trace s) (pushes : Pushes s kept pushed effect)
    (same : SameConfig s effect.state)
    (silent : ∀ idx, acknowledger? idx ⟨s, event, effect.state, effect.emitted⟩ = none) :
    Tallied (trace ++ [⟨s, event, effect.state, effect.emitted⟩]) effect.state := by
  intro idx entry found
  rw [pushes.log] at found
  rcases RaftLogger.entryAt?_append found with ⟨old, keptEntry⟩ | ⟨low, high, new⟩
  · have unpushed : .appended idx ∉ effect.emitted := by
      rw [pushes.dated]
      omega
    rw [ackNodes, ackers_append_singleton, if_neg unpushed, silent idx, Option.toList_none,
      List.append_nil, same.thisNode, NodeTable.count, same.nodes]
    exact tallied idx entry (RaftLogger.entryAt?_of_isPrefix pushes.isPrefixOf keptEntry)
  · left
    rw [pushes.fresh entry new]
    exact Int.natCast_nonneg _

/-- A successful response adds its node to the ackers of the indices it covers. -/
theorem ackers_append_response {trace : List (Step Node)} {s s' : RaftServer Node} {node : Node}
    {r : MsgAppendentriesResponse} {emitted : List (Action Node)} (success : r.success = 1)
    (quiet : ∀ idx, .appended idx ∉ emitted) (idx : Int) :
    ackers idx (trace ++ [⟨s, .recvAppendentriesResponse node r, s', emitted⟩]) =
      ackers idx trace ++ if r.firstIdx ≤ idx ∧ idx ≤ r.currentIdx then [node] else [] := by
  rw [ackers_append_singleton, if_neg (quiet idx)]
  simp only [acknowledger?, success, true_and]
  split <;> rfl

/-- A response of a node that acknowledges once counts for a new node, or is not needed. -/
theorem AcknowledgesOnce.new_or_half {trace : List (Step Node)} {s s' : RaftServer Node}
    {node : Node} {r : MsgAppendentriesResponse} {emitted : List (Action Node)}
    (once : AcknowledgesOnce trace ⟨s, .recvAppendentriesResponse node r, s', emitted⟩)
    (success : r.success = 1) {idx : Int} {old : RaftEntry}
    (found : s.log.entryAt? idx = some old) (low : r.firstIdx ≤ idx) (high : idx ≤ r.currentIdx) :
    (some node ≠ s.thisNode ∧ node ∉ ackers idx trace) ∨
      s.table.count / 2 ≤ (ackNodes s idx trace).card := by
  have bounds := RaftLogger.entryAt?_eq_some_bounds found
  have position : (((idx - 1).toNat : ℕ) : Int) + 1 = idx := by omega
  have inside : (idx - 1).toNat < s.log.length := by omega
  have fresh := once success (idx - 1).toNat (List.mem_range.mpr inside) (by omega) (by omega)
  rwa [position] at fresh

/-- A successful response raises the counters and the tally of the entries it covers. The
hypothesis says that the acknowledger is new, or that the entry has enough of them anyway. -/
theorem Tallied.acknowledge {trace : List (Step Node)} {s s' : RaftServer Node} {node : Node}
    {r : MsgAppendentriesResponse} {emitted : List (Action Node)} (tallied : Tallied trace s)
    (success : r.success = 1) {marked : RaftLogger}
    (mark : Marked r.firstIdx r.currentIdx s.log marked) (log : s'.log = marked)
    (same : SameConfig s s') (quiet : ∀ idx, .appended idx ∉ emitted)
    (once : AcknowledgesOnce trace ⟨s, .recvAppendentriesResponse node r, s', emitted⟩) :
    Tallied (trace ++ [⟨s, .recvAppendentriesResponse node r, s', emitted⟩]) s' := by
  intro idx entry found
  rw [log] at found
  obtain ⟨old, foundOld, raised⟩ := mark.counted idx entry found
  have sameCount : s'.table.count = s.table.count := congrArg List.length same.nodes
  have kept : ackNodes s idx trace ⊆
      ackNodes s' idx (trace ++ [⟨s, .recvAppendentriesResponse node r, s', emitted⟩]) := by
    intro acker member
    obtain ⟨listed, other⟩ := mem_ackNodes.mp member
    rw [mem_ackNodes, ackers_append_response success quiet, same.thisNode]
    exact ⟨List.mem_append_left _ listed, other⟩
  have grown := Finset.card_le_card kept
  rw [sameCount]
  rcases tallied idx old foundOld with counted | half
  · by_cases covered : r.firstIdx ≤ idx ∧ idx ≤ r.currentIdx
    · rw [if_pos covered] at raised
      rcases once.new_or_half success foundOld covered.1 covered.2 with ⟨other, new⟩ | half
      · left
        have added : node ∈
            ackNodes s' idx (trace ++ [⟨s, .recvAppendentriesResponse node r, s', emitted⟩]) := by
          rw [mem_ackNodes, ackers_append_response success quiet, if_pos covered, same.thisNode]
          exact ⟨List.mem_append_right _ (List.mem_singleton_self node), other⟩
        have larger := Finset.card_le_card (Finset.insert_subset added kept)
        rw [Finset.card_insert_of_notMem fun member => new (mem_ackNodes.mp member).1] at larger
        omega
      · exact Or.inr (Nat.le_trans half grown)
    · left
      rw [if_neg covered] at raised
      omega
  · exact Or.inr (Nat.le_trans half grown)

/-- One step keeps the tally: it is a response, which counts, or it keeps a prefix, of which
counters and tally are as before. -/
theorem Tallied.step {trace : List (Step Node)} {s : RaftServer Node} {event : Event Node}
    {effect : Effect (RaftServer Node) (Action Node)} (tallied : Tallied trace s)
    (idle : s.hasPendingEntry = false) (result : StepResult s event effect)
    (once : AcknowledgesOnce trace ⟨s, event, effect.state, effect.emitted⟩) :
    Tallied (trace ++ [⟨s, event, effect.state, effect.emitted⟩]) effect.state := by
  have same := result.sameConfig
  by_cases acknowledged : ∃ node r, event = .recvAppendentriesResponse node r ∧ r.success = 1
  · obtain ⟨node, r, rfl, success⟩ := acknowledged
    cases result with
    | appendentriesResponse responded =>
        cases responded with
        | failed failure => exact absurd success failure
        | succeeded _ marked mark _ _ committed =>
            obtain ⟨commit, last, rfl⟩ := committed.applied.frame
            exact tallied.acknowledge success mark rfl same
              committed.applied.sound.appended_not_mem once
  · have unacknowledged : ∀ node r, event = .recvAppendentriesResponse node r → r.success ≠ 1 :=
      fun node r same success => acknowledged ⟨node, r, same, success⟩
    obtain ⟨kept, pushed, pushes⟩ := result.pushes idle unacknowledged
    refine tallied.push pushes same fun idx => ?_
    unfold acknowledger?
    split
    · rename_i node r same
      rw [if_neg fun covers => unacknowledged node r same covers.1]
    · rfl

/-- The tally holds along every run in which nobody acknowledges an entry twice before half the
nodes have. -/
theorem RunFrom.tallied {config : Config Node} {trace : List (Step Node)} {s : RaftServer Node}
    (run : RunFrom config trace s) (once : Along AcknowledgesOnce trace) : Tallied trace s := by
  apply run.invariant_along Tallied ?_ ?_ once
  · intro idx entry found
    cases RaftLogger.mem_of_entryAt? found
  · intro trace s event effect reached tallied stepped once
    exact tallied.step (RunFrom.hasPendingEntry_eq_false reached) (step_result stepped) once

/-- The commit loop passes an index only with the counter of its entry at half the nodes,
and no other part of a handler raises the commit index of a leader. -/
theorem StepResult.counter_reaches_half {s : RaftServer Node} {node : Node}
    {r : MsgAppendentriesResponse} {effect : Effect (RaftServer Node) (Action Node)}
    (result : StepResult s (.recvAppendentriesResponse node r) effect)
    (agree : s.lastAppliedIdx = s.commitIdx) {idx : Int} (below : s.commitIdx < idx)
    (reached : idx ≤ effect.state.commitIdx) :
    ∃ entry, effect.state.log.entryAt? idx = some entry ∧
      ((s.table.count / 2 : ℕ) : Int) ≤ entry.numNodes := by
  cases result with
  | @appendentriesResponse _ _ s' _ responded =>
      cases responded with
      | failed _ => exact absurd reached (Int.not_le.mpr below)
      | succeeded _ marked _ _ _ committed =>
          have agree' : s'.lastAppliedIdx = s'.commitIdx := committed.applied.together agree
          obtain ⟨entry, found, half⟩ := committed.counted idx
            (show s.lastAppliedIdx < idx by omega) (show idx ≤ s'.lastAppliedIdx by
              rw [agree']
              exact reached)
          obtain ⟨commit, last, frame⟩ := committed.applied.frame
          rw [frame]
          exact ⟨entry, found, half⟩

/-- In every run in which successful responses come from other nodes, and none acknowledges an
entry of the log a second time before half the nodes have acknowledged it, a response moves the
commit index over `idx` only when half the number of nodes, rounded down, have acknowledged
`idx` since its entry was pushed. -/
theorem commit_needs_distinct_ackers (config : Config Node) (past : List (Step Node))
    (t : Step Node) (rest : List (Step Node)) (s : RaftServer Node)
    (run : RunFrom config (past ++ t :: rest) s)
    (once : Along AcknowledgesOnce (past ++ t :: rest))
    (node : Node) (r : MsgAppendentriesResponse)
    (responded : t.event = .recvAppendentriesResponse node r) (idx : Int)
    (below : t.before.commitIdx < idx) (reached : idx ≤ t.after.commitIdx) :
    ∃ quorum : Finset Node, t.before.table.count / 2 ≤ quorum.card ∧
      ∀ acker ∈ quorum, some acker ≠ t.before.thisNode ∧ acker ∈ ackers idx (past ++ [t]) := by
  obtain ⟨earlier, stepped⟩ := run.at_split
  have result := step_result stepped
  have idle := RunFrom.hasPendingEntry_eq_false earlier
  have tallied := (RunFrom.tallied earlier once.of_append).step idle result once.at_split
  have same := result.sameConfig
  have agree := RunFrom.together earlier
  rw [responded] at result
  obtain ⟨entry, found, half⟩ := result.counter_reaches_half agree below reached
  have sameCount : t.after.table.count = t.before.table.count := congrArg List.length same.nodes
  refine ⟨ackNodes t.after idx (past ++ [t]), ?_, ?_⟩
  · rcases tallied idx entry found with counted | reachedHalf
    · exact Int.ofNat_le.mp (Int.le_trans half counted)
    · rw [← sameCount]
      exact reachedHalf
  · intro acker member
    obtain ⟨listed, other⟩ := mem_ackNodes.mp member
    rw [← same.thisNode]
    exact ⟨other, listed⟩

/-- A server of five nodes is elected, appends an entry and hears of it from node 1. -/
def acknowledgedOnce : List (Event (Fin 5)) :=
  candidacy 1000 (0, 0) ⟨0, 1⟩ [1, 2] ++
    [.recvEntry 4 ⟨1, [1]⟩, .recvAppendentriesResponse 1 ⟨1, 1, 1, 1⟩]

/-- The run on these events. -/
def acknowledgedPast : List (Step (Fin 5)) :=
  traceOn 0 acknowledgedOnce

/-- In the state of the example a response of any node is handled. -/
theorem acknowledgement_defined : ∀ node : Fin 5, ((machine (Fin 5)).step
    (stateOn 0 acknowledgedOnce) (.recvAppendentriesResponse node ⟨1, 1, 1, 1⟩)).isSome := by
  decide

/-- The step on one more response to the entry. -/
def acknowledgedBy (node : Fin 5) : Step (Fin 5) :=
  transitionOf (machine (Fin 5)) _ _ (acknowledgement_defined node)

/-- The example with the response of a node of choice. -/
theorem run_acknowledgedBy (node : Fin 5) :
    RunFrom (.member 0) (acknowledgedPast ++ [acknowledgedBy node])
      (acknowledgedBy node).after :=
  (run_traceOf (machine (Fin 5)) _ acknowledgedOnce (by decide)).snoc_transitionOf _ _

/-- In a cluster of five the second acknowledgement commits the entry, and two different
nodes have sent one. -/
theorem commit_needs_distinct_ackers_of_member :
    (acknowledgedBy 2).after.commitIdx = 1 ∧
      ∃ quorum : Finset (Fin 5), (acknowledgedBy 2).before.table.count / 2 ≤ quorum.card ∧
        ∀ acker ∈ quorum, some acker ≠ (acknowledgedBy 2).before.thisNode ∧
          acker ∈ ackers 1 (acknowledgedPast ++ [acknowledgedBy 2]) :=
  ⟨by decide, commit_needs_distinct_ackers (.member 0) _ _ [] _ (run_acknowledgedBy 2)
    (by decide) 2 ⟨1, 1, 1, 1⟩ rfl 1 (by decide) (by decide)⟩

/-- A leader of five nodes commits an entry on two responses of one node. -/
theorem commit_on_repeated_response :
    RunFrom (.member 0) (acknowledgedPast ++ [acknowledgedBy 1])
        (acknowledgedBy 1).after ∧
      (acknowledgedBy 1).before.state = .leader ∧
      (acknowledgedBy 1).before.commitIdx < 1 ∧
      1 ≤ (acknowledgedBy 1).after.commitIdx ∧
      ¬∃ quorum : Finset (Fin 5),
        (acknowledgedBy 1).before.table.count / 2 ≤ quorum.card ∧
          ∀ acker ∈ quorum, some acker ≠ (acknowledgedBy 1).before.thisNode ∧
            acker ∈ ackers 1 (acknowledgedPast ++ [acknowledgedBy 1]) := by
  refine ⟨run_acknowledgedBy 1, by decide, by decide, by decide, ?_⟩
  rintro ⟨quorum, half, acked⟩
  have single : ackers 1 (acknowledgedPast ++ [acknowledgedBy 1]) = [1, 1] := by
    decide
  have within : quorum ⊆ {1} := by
    intro acker member
    have listed := (acked acker member).2
    rw [single] at listed
    simpa using listed
  have two : (acknowledgedBy 1).before.table.count / 2 = 2 := by decide
  have one := Finset.card_le_card within
  rw [two] at half
  exact absurd (Nat.le_trans half one) (by decide)

end RaftServer

end CppRaft
