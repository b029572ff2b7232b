import CppRaft.Server.AppendOnly

/-!
# The reign of a leader

A leader keeps its role until an AppendEntries message of its own or a later term
arrives, whatever else it is sent. Until then its term stands still, its log grows by
the entries of its clients and by nothing else, and it applies the entries of its log
one after the other.
-/

namespace CppRaft

open Machine

/-- What a client entry says once it is in a log written in `term`. -/
def MsgEntry.contentIn (term : Int) (e : MsgEntry) : Int × Int × List UInt8 :=
  (term, e.intId, e.data)

namespace RaftServer

variable {Node : Type}

/-- The term in which a leader announces itself. -/
def announcedTerm? : Event Node → Option Int
  | .recvAppendentries _ _ ae _ => some ae.term
  | _ => none

/-- The client entry that `recv_entry` takes. -/
def given? : Event Node → Option MsgEntry
  | .recvEntry _ e => if e.intId = 0 then none else some e
  | _ => none

/-- The client entries that the calls of a run took, in order. -/
def clientEntries (trace : List (Step Node)) : List MsgEntry :=
  trace.filterMap fun t => given? t.event

/-- What a client writes is the entry that is taken, in the current term. -/
theorem written?_eq (s : RaftServer Node) (event : Event Node) :
    written? s event = (given? event).map (MsgEntry.contentIn s.currentTerm) := by
  cases event with
  | recvEntry node e =>
      simp only [written?, given?]
      split <;> rfl
  | _ => rfl

/-- The calls between two states of one leader. -/
structure Reign (start : RaftServer Node) (reign : List (Step Node)) (s : RaftServer Node) :
    Prop where
  leads : s.state = .leader
  term : s.currentTerm = start.currentTerm
  callbacks : s.callbacks = start.callbacks
  log : s.log.map RaftEntry.content = start.log.map RaftEntry.content ++
    (clientEntries reign).map (MsgEntry.contentIn start.currentTerm)
  applied : ∃ count : ℕ, s.lastAppliedIdx = start.lastAppliedIdx + count ∧
    appliedIdxs (emissions reign) =
      if start.callbacks.applylog then indicesFrom start.lastAppliedIdx count else []

/-- A call that leaves the role, the term, the log and the applied index alone and applies
nothing. -/
theorem Reign.of_frame {s : RaftServer Node} {event : Event Node}
    {effect : Effect (RaftServer Node) (Action Node)} (leads : effect.state.state = .leader)
    (term : effect.state.currentTerm = s.currentTerm)
    (callbacks : effect.state.callbacks = s.callbacks)
    (taken : given? event = none) (log : effect.state.log = s.log)
    (applied : effect.state.lastAppliedIdx = s.lastAppliedIdx)
    (quiet : appliedIdxs effect.emitted = []) :
    Reign s [⟨s, event, effect.state, effect.emitted⟩] effect.state where
  leads := leads
  term := term
  callbacks := callbacks
  log := by simp [clientEntries, taken, log]
  applied := ⟨0, by simp [applied], by simp [emissions, quiet, indicesFrom]⟩

/-- Reigns compose: the client entries of the second follow those of the first in the log. -/
theorem Reign.trans {start middle s : RaftServer Node} {first second : List (Step Node)}
    (early : Reign start first middle) (late : Reign middle second s) :
    Reign start (first ++ second) s where
  leads := late.leads
  term := late.term.trans early.term
  callbacks := late.callbacks.trans early.callbacks
  log := by
    rw [late.log, early.log, early.term, clientEntries, clientEntries, clientEntries,
      List.filterMap_append, List.map_append, List.append_assoc]
  applied := by
    obtain ⟨count, moved, indices⟩ := early.applied
    obtain ⟨count', moved', indices'⟩ := late.applied
    refine ⟨count + count', by rw [moved', moved]; omega, ?_⟩
    rw [emissions, List.flatMap_append, ← emissions, ← emissions, appliedIdxs_append, indices,
      indices', early.callbacks, moved, indicesFrom_add]
    split <;> simp

/-- A refused message leaves a leader of a later term as it is, but for its timer. -/
theorem AppendResult.reign {asResponce : Bool} {node : Node} {ae : MsgAppendEntries}
    {stack : Int × Int} {s : RaftServer Node} {effect : Effect (RaftServer Node) (Action Node)}
    (result : AppendResult asResponce node ae stack s effect) (leads : s.state = .leader)
    (lower : ae.term < s.currentTerm) :
    Reign s [⟨s, .recvAppendentries asResponce node ae stack, effect.state, effect.emitted⟩]
      effect.state := by
  cases result with
  | refused _ =>
      have noticed : noticeLeader asResponce ae s =
          { s with timeoutElapsed := if asResponce then 0 else s.timeoutElapsed } := by
        have later := Int.not_le.mpr lower
        cases asResponce with
        | false => exact if_neg fun both => later both.2
        | true => exact if_neg fun both => later both.2
      rw [noticed]
      exact .of_frame leads rfl rfl rfl rfl rfl (appliedIdxs_sends _ _ _)
  | accepted _ reached _ _ _ _ _ _ _ => exact absurd reached (Int.not_le.mpr lower)

variable [DecidableEq Node]

/-- A response of a follower leaves the leader in office and its log alone, up to the
counters. -/
theorem ResponseResult.reign {node : Node} {r : MsgAppendentriesResponse}
    {s s' : RaftServer Node} {emitted : List (Action Node)}
    (result : ResponseResult node r s s' emitted) (leads : s.state = .leader) :
    Reign s [⟨s, .recvAppendentriesResponse node r, s', emitted⟩] s' := by
  cases result with
  | failed _ =>
      exact @Reign.of_frame _ s _ ⟨s, _⟩ leads rfl rfl rfl rfl rfl (appliedIdxs_sends _ _ _)
  | succeeded _ marked mark _ _ committed =>
      obtain ⟨count, moved, indices⟩ := committed.applied.consecutive
      obtain ⟨commit, last, rfl⟩ := committed.applied.frame
      refine ⟨leads, rfl, rfl, ?_, count, moved, ?_⟩
      · simpa [clientEntries, given?] using mark.content
      · rw [setNextIdx_eq] at indices
        simpa [emissions] using indices

/-- One call, unless it brings an AppendEntries message of the current or a later term: the
server stays leader, in its term, and only clients write its log. -/
theorem StepResult.reign {s : RaftServer Node} {event : Event Node}
    {effect : Effect (RaftServer Node) (Action Node)} (result : StepResult s event effect)
    (leads : s.state = .leader) (lower : ∀ term ∈ announcedTerm? event, term < s.currentTerm) :
    Reign s [⟨s, event, effect.state, effect.emitted⟩] effect.state := by
  have undecided (other : s.state ≠ .leader) : False := other leads
  cases result with
  | appendentries appended => exact appended.reign leads (lower _ rfl)
  | appendentriesResponse responded => exact responded.reign leads
  | requestvote _ _ => exact .of_frame leads rfl rfl rfl rfl rfl (appliedIdxs_sends _ _ _)
  | requestvoteResponse _ ballot =>
      cases ballot with
      | ignored _ => exact .of_frame leads rfl rfl rfl rfl rfl rfl
      | refused other _ => exact (undecided other).elim
      | counted other _ => exact (undecided other).elim
      | elected other _ _ => exact (undecided other).elim
  | refusedEntry _ zero =>
      exact .of_frame leads rfl rfl (if_pos zero) rfl rfl (appliedIdxs_entryActions _ _ _ _)
  | @appendedEntry node e nonzero =>
      refine ⟨leads, rfl, rfl, ?_, 0, (Int.add_zero _).symm, ?_⟩
      · simp [appendClient, clientEntries, given?, nonzero, MsgEntry.contentIn]
      · have quiet := appliedIdxs_entryActions node e.id 1 (appendClient e s)
        simpa [emissions, indicesFrom, appliedIdxs, Action.appliedIdx?] using quiet
  | pending due _ _ => simp [hasPendingEntry, leads] at due
  | timer timed =>
      cases timed with
      | waited _ => exact .of_frame leads rfl rfl rfl rfl rfl rfl
      | heartbeat _ => exact .of_frame leads rfl rfl rfl rfl rfl (appliedIdxs_sends _ _ _)
      | stood due => simp [startsElection, leads] at due

/-- An AppendEntries message of the current or a later term ends the reign. -/
theorem StepResult.follower_of_announced {s : RaftServer Node} {event : Event Node}
    {effect : Effect (RaftServer Node) (Action Node)} (result : StepResult s event effect)
    (leads : s.state = .leader) {term : Int} (announced : announcedTerm? event = some term)
    (reached : s.currentTerm ≤ term) : effect.state.state = .follower := by
  cases result with
  | @appendentries asResponce node ae stack _ appended =>
      obtain rfl := Option.some.inj announced
      cases appended with
      | refused _ =>
          unfold noticeLeader becomeFollower
          cases asResponce <;> simp [leads, reached]
      | accepted _ _ _ _ _ _ _ _ _ => simp [acceptAppend, roleAfterAppend, leads]
  | _ => cases announced

/-- A leader holds its role through a sequence of calls exactly if every AppendEntries message
among them is of a term below its own. While it does, its term stands still, its log is
extended by the entries its clients submit, in that term and in their order, and the entries
it applies are the ones that follow those applied before, one after the other. -/
theorem leader_reigns_until_announcement {start s : RaftServer Node} {reign : List (Step Node)}
    (run : (machine Node).Run start reign s) (leads : start.state = .leader) :
    ((∀ t ∈ reign, t.after.state = .leader) ↔
      ∀ t ∈ reign, ∀ term ∈ announcedTerm? t.event, term < start.currentTerm) ∧
    ((∀ t ∈ reign, t.after.state = .leader) →
      s.currentTerm = start.currentTerm ∧
      s.log.map RaftEntry.content = start.log.map RaftEntry.content ++
        (clientEntries reign).map (MsgEntry.contentIn start.currentTerm) ∧
      ∃ count : ℕ, s.lastAppliedIdx = start.lastAppliedIdx + count ∧
        appliedIdxs (emissions reign) =
          if start.callbacks.applylog then indicesFrom start.lastAppliedIdx count else []) := by
  have invariant : ((∀ t ∈ reign, t.after.state = .leader) ↔
        ∀ t ∈ reign, ∀ term ∈ announcedTerm? t.event, term < start.currentTerm) ∧
      ((∀ t ∈ reign, t.after.state = .leader) → Reign start reign s) := by
    apply run.invariant fun reign s => ((∀ t ∈ reign, t.after.state = .leader) ↔
        ∀ t ∈ reign, ∀ term ∈ announcedTerm? t.event, term < start.currentTerm) ∧
      ((∀ t ∈ reign, t.after.state = .leader) → Reign start reign s)
    · exact ⟨by simp, fun _ => ⟨leads, rfl, rfl, by simp [clientEntries],
        0, (Int.add_zero _).symm, by simp [indicesFrom]⟩⟩
    · intro reign s event effect _ earlier stepped
      obtain ⟨held, reigned⟩ := earlier
      have result := step_result stepped
      simp only [List.mem_append, List.mem_singleton, or_imp, forall_and, forall_eq]
      refine ⟨⟨?_, ?_⟩, ?_⟩
      · rintro ⟨kept, last⟩
        have so := reigned kept
        refine ⟨held.mp kept, fun term announced => ?_⟩
        -- A message that reaches the term would have made a follower of the leader.
        by_contra higher
        have follows := result.follower_of_announced so.leads announced
          (so.term ▸ Int.not_lt.mp higher)
        rw [follows] at last
        cases last
      · rintro ⟨below, last⟩
        have so := reigned (held.mpr below)
        exact ⟨held.mpr below, (result.reign so.leads (so.term ▸ last)).leads⟩
      · rintro ⟨kept, last⟩
        have so := reigned kept
        refine so.trans (result.reign so.leads fun term announced => ?_)
        by_contra higher
        have follows := result.follower_of_announced so.leads announced (Int.not_lt.mp higher)
        rw [follows] at last
        cases last
  refine ⟨invariant.1, fun kept => ?_⟩
  have so := invariant.2 kept
  exact ⟨so.term, so.log, so.applied⟩

/-- A leader is given two entries around a message of an older term, and one is acknowledged. -/
def reigning (peer client : Node) : List (Event Node) :=
  [.recvEntry client ⟨7, [1]⟩, .recvAppendentries true peer (.new 0 0 0 0 0) (0, 0),
    .recvEntry client ⟨9, [2]⟩, .recvAppendentriesResponse peer ⟨1, 1, 1, 1⟩]

/-- A leader of three reigns over two client entries and the messages between them. -/
theorem leader_of_three_reigns :
    (stateOn (0 : Fin 3) (candidacy 1000 (0, 0) ⟨0, 1⟩ [1])).state = .leader ∧
      (stateOf (machine (Fin 3)) (stateOn 0 (candidacy 1000 (0, 0) ⟨0, 1⟩ [1]))
          (reigning 2 1)).log.map RaftEntry.content = [(1, 7, [1]), (1, 9, [2])] ∧
      ∀ t ∈ traceOf (machine (Fin 3)) (stateOn 0 (candidacy 1000 (0, 0) ⟨0, 1⟩ [1]))
          (reigning 2 1),
        t.after.state = .leader :=
  ⟨by decide, by decide, (leader_reigns_until_announcement
    (run_traceOf (machine (Fin 3)) (stateOn 0 (candidacy 1000 (0, 0) ⟨0, 1⟩ [1]))
      (reigning 2 1) (by decide))
    (by decide)).1.mpr (by decide)⟩

end RaftServer

end CppRaft
