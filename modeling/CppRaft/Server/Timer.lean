import Mathlib.Tactic.Linarith
import CppRaft.Server.Ballot

/-!
# The timer of a server

`timeout_elapsed` adds up the ticks of `periodic` and is set back by an AppendEntries
message that comes as such, accepted or refused; no other message touches it. A server
that does not lead stands for election at the tick that completes `election_timeout`
without such a message, and at no other. A leader sends its heartbeats at the ticks that
complete `request_timeout`.
-/

namespace CppRaft

open Machine

namespace RaftServer

variable {Node : Type}

/-- The time that the timer shows after a call which does not run out. -/
def quietAfter (quiet : Int) : Event Node → Int
  | .recvAppendentries asResponce _ _ _ => if asResponce then 0 else quiet
  | .periodic msec _ => quiet + msec
  | _ => quiet

/-- The time since a leader was last heard, or since the start. -/
def quietTime (start : Int) (trace : List (Step Node)) : Int :=
  trace.foldl (fun quiet t => quietAfter quiet t.event) start

/-- The quiet time is computed step by step. -/
theorem quietTime_append_singleton (start : Int) (trace : List (Step Node)) (t : Step Node) :
    quietTime start (trace ++ [t]) = quietAfter (quietTime start trace) t.event := by
  simp [quietTime, List.foldl_append]

/-- The length of a tick. -/
def tick? : Event Node → Option Int
  | .periodic msec _ => some msec
  | _ => none

/-- The time that the ticks of a run add up to. -/
def ticked (trace : List (Step Node)) : Int :=
  (trace.filterMap fun t => tick? t.event).sum

/-- The time that has passed is summed step by step. -/
theorem ticked_append_singleton (trace : List (Step Node)) (t : Step Node) :
    ticked (trace ++ [t]) = ticked trace + (tick? t.event).getD 0 := by
  unfold ticked
  rw [List.filterMap_append]
  cases tick : tick? t.event <;> simp [tick]

/-- The fields of the timer that a call leaves as they are. -/
structure SameTimer (s : RaftServer Node) (_emitted : List (Action Node))
    (s' : RaftServer Node) : Prop where
  elapsed : s'.timeoutElapsed = s.timeoutElapsed
  election : s'.electionTimeout = s.electionTimeout
  request : s'.requestTimeout = s.requestTimeout
  commit : s'.leaderCommit = s.leaderCommit

/-- Parts that leave the timer alone can be run one after the other. -/
theorem sameTimer_composes : Composes (@SameTimer Node) where
  refl _ := ⟨rfl, rfl, rfl, rfl⟩
  trans first second :=
    ⟨second.elapsed.trans first.elapsed, second.election.trans first.election,
      second.request.trans first.request, second.commit.trans first.commit⟩

/-- Applying entries leaves the timer alone. -/
theorem Applied.sameTimer {s s' : RaftServer Node} {emitted : List (Action Node)}
    (applied : Applied s emitted s') : SameTimer s emitted s' := by
  obtain ⟨commit, last, rfl⟩ := applied.frame
  exact ⟨rfl, rfl, rfl, rfl⟩

/-- So does the commit part of `recv_appendentries`. -/
theorem advanceCommit_sameTimer (ae : MsgAppendEntries) (s : RaftServer Node) :
    SameTimer s (advanceCommit ae s).emitted (advanceCommit ae s).state := by
  obtain ⟨commit, applied, frame, -⟩ := advanceCommit_advanced ae s
  rw [frame]
  exact ⟨rfl, rfl, rfl, rfl⟩

/-- And so does its append part: of the whole handler only the head touches the timer. -/
theorem appendAndReply_sameTimer (node : Node) (ae : MsgAppendEntries)
    (r : MsgAppendentriesResponse) (s : RaftServer Node) :
    SameTimer s (appendAndReply node ae r s).emitted (appendAndReply node ae r s).state := by
  obtain ⟨state, votedFor, demoted⟩ := demote_frame s
  rw [appendAndReply_eq, demoted]
  exact ⟨rfl, rfl, rfl, rfl⟩

/-- After its head `recv_appendentries` does not touch the timer. The head resets it for a
message of a peer, whatever the term of the message. -/
theorem recvAppendentries_sameTimer (asResponce : Bool) (node : Node) (ae : MsgAppendEntries)
    (stack : Int × Int) (s : RaftServer Node) :
    SameTimer (noticeLeader asResponce ae s) (recvAppendentries asResponce node ae stack s).emitted
      (recvAppendentries asResponce node ae stack s).state := by
  unfold recvAppendentries
  simp only [replyAppendentries_eq]
  split
  · exact ⟨rfl, rfl, rfl, rfl⟩
  · refine Outcome.bind_composes sameTimer_composes _ _ _ ⟨rfl, rfl, rfl, rfl⟩ fun kept => ?_
    cases kept with
    | none => exact ⟨rfl, rfl, rfl, rfl⟩
    | some log =>
        have advanced := advanceCommit_sameTimer ae { noticeLeader asResponce ae s with log := log }
        refine Outcome.bind_composes sameTimer_composes _ _ _ ?_
          fun _ => appendAndReply_sameTimer _ _ _ _
        exact ⟨advanced.elapsed, advanced.election, advanced.request, advanced.commit⟩

/-- The head of `recv_appendentries` sets the timer back. -/
theorem noticeLeader_timer (asResponce : Bool) (ae : MsgAppendEntries) (s : RaftServer Node) :
    SameTimer { s with timeoutElapsed := if asResponce then 0 else s.timeoutElapsed } []
      (noticeLeader asResponce ae s) := by
  unfold noticeLeader becomeFollower
  cases asResponce with
  | false =>
      simp only [Bool.false_eq_true, ↓reduceIte]
      split <;> exact ⟨rfl, rfl, rfl, rfl⟩
  | true =>
      simp only [↓reduceIte]
      split <;> exact ⟨rfl, rfl, rfl, rfl⟩

variable [DecidableEq Node]

/-- The time at which the timer of a server runs out. -/
def deadline (s : RaftServer Node) : Int :=
  if s.state = .leader then s.requestTimeout else s.electionTimeout

/-- What a call does to the timer. -/
inductive TimerStep (s : RaftServer Node) :
    Event Node → Effect (RaftServer Node) (Action Node) → Prop where
  | call {event : Event Node} {effect : Effect (RaftServer Node) (Action Node)}
      (untimed : tick? event = none)
      (same : SameTimer { s with timeoutElapsed := quietAfter s.timeoutElapsed event }
        effect.emitted effect.state) :
      TimerStep s event effect
  | waited {msec : Int} {rand : ℕ × ℕ} (early : s.timeoutElapsed + msec < s.deadline) :
      TimerStep s (.periodic msec rand)
        ⟨{ s with timeoutElapsed := s.timeoutElapsed + msec }, []⟩
  | heartbeat {msec : Int} {rand : ℕ × ℕ} (leads : s.state = .leader)
      (due : s.requestTimeout ≤ s.timeoutElapsed + msec) :
      TimerStep s (.periodic msec rand)
        ⟨{ s with timeoutElapsed := 0, leaderCommit := s.leaderCommit + 1 },
          s.sends (s.peers false) fun node => .appendentries
            (.new s.currentTerm 0 (s.table.record node).nextIdx 0 (s.leaderCommit + 1))⟩
  | stood {msec : Int} {rand : ℕ × ℕ} (undecided : s.state ≠ .leader)
      (due : s.electionTimeout ≤ s.timeoutElapsed + msec) :
      TimerStep s (.periodic msec rand)
        ⟨{ s with
            currentTerm := s.currentTerm + s.termIncrement rand.1
            votedFor := s.thisNode
            state := .candidate
            timeoutElapsed := (rand.2 % 500 : ℕ) },
          s.sends (s.peers true) fun _ => .requestvote
            ⟨s.currentTerm + s.termIncrement rand.1, 0, s.currentIdx, 0⟩⟩

/-- The timer part of `periodic`: the elapsed time grows, and starts over with an election
or a round of heartbeats. -/
theorem advanceTimer_timerStep (msec : Int) (rand : ℕ × ℕ) (s : RaftServer Node) :
    TimerStep s (.periodic msec rand) (advanceTimer msec rand s) := by
  unfold advanceTimer
  by_cases leads : s.state = .leader
  · simp only [if_pos leads]
    split
    · rename_i due
      rw [sendAppendentriesAll_eq]
      have sent : TimerStep s (.periodic msec rand) _ := .heartbeat leads due
      simpa [Effect.andThen, Effect.done, peers, skips, sends] using sent
    · rename_i early
      exact .waited (by rw [deadline, if_pos leads]; exact Int.not_le.mp early)
  · simp only [if_neg leads]
    split
    · rename_i due
      rw [becomeCandidate_eq]
      exact .stood leads due
    · rename_i early
      exact .waited (by rw [deadline, if_neg leads]; exact Int.not_le.mp early)

/-- What a step of a run does to the timer. Of the handlers only `periodic` and
`recv_appendentries` touch it. -/
theorem step_timerStep {s : RaftServer Node} {event : Event Node}
    {effect : Effect (RaftServer Node) (Action Node)}
    (stepped : (machine Node).step s event = some effect) (idle : s.hasPendingEntry = false) :
    TimerStep s event effect := by
  cases step_result stepped with
  | @appendentries asResponce node ae stack _ _ =>
      obtain ⟨-, -, rfl⟩ := (Outcome.effect?_eq_some_iff _ effect).mp stepped
      exact .call rfl (sameTimer_composes.trans (noticeLeader_timer asResponce ae s)
        (recvAppendentries_sameTimer asResponce node ae stack s))
  | appendentriesResponse responded =>
      refine .call rfl ?_
      cases responded with
      | failed _ => exact ⟨rfl, rfl, rfl, rfl⟩
      | succeeded _ _ _ _ _ committed =>
          have same := committed.applied.sameTimer
          rw [setNextIdx_eq] at same
          exact ⟨same.elapsed, same.election, same.request, same.commit⟩
  | requestvote _ _ => exact .call rfl ⟨rfl, rfl, rfl, rfl⟩
  | requestvoteResponse _ ballot =>
      refine .call rfl ?_
      cases ballot with
      | ignored _ => exact ⟨rfl, rfl, rfl, rfl⟩
      | refused _ _ => exact ⟨rfl, rfl, rfl, rfl⟩
      | counted _ _ => exact ⟨rfl, rfl, rfl, rfl⟩
      | elected _ _ _ =>
          rw [becomeLeader_eq]
          exact ⟨rfl, rfl, rfl, rfl⟩
  | refusedEntry _ _ => exact .call rfl ⟨rfl, rfl, rfl, rfl⟩
  | appendedEntry _ _ => exact .call rfl ⟨rfl, rfl, rfl, rfl⟩
  | pending due _ _ =>
      rw [idle] at due
      cases due
  | @timer msec rand _ _ =>
      obtain ⟨-, -, rfl⟩ := (Outcome.effect?_eq_some_iff _ effect).mp stepped
      simp only [handle, periodic, idle]
      exact advanceTimer_timerStep msec rand s

/-- A step keeps the timeouts. -/
theorem TimerStep.timeouts {s : RaftServer Node} {event : Event Node}
    {effect : Effect (RaftServer Node) (Action Node)} (timed : TimerStep s event effect) :
    effect.state.electionTimeout = s.electionTimeout ∧
      effect.state.requestTimeout = s.requestTimeout := by
  cases timed with
  | call _ same => exact ⟨same.election, same.request⟩
  | waited _ => exact ⟨rfl, rfl⟩
  | heartbeat _ _ => exact ⟨rfl, rfl⟩
  | stood _ _ => exact ⟨rfl, rfl⟩

/-- The timeouts of a run are those of its configuration. -/
theorem RunFrom.timeouts {config : Config Node} {trace : List (Step Node)}
    {s : RaftServer Node} (run : RunFrom config trace s) :
    s.electionTimeout = config.electionTimeout ∧ s.requestTimeout = config.requestTimeout := by
  apply run.invariant fun _ s =>
    s.electionTimeout = config.electionTimeout ∧ s.requestTimeout = config.requestTimeout
  · exact ⟨rfl, rfl⟩
  · intro trace s event effect reached same stepped
    have step := (step_timerStep stepped (RunFrom.hasPendingEntry_eq_false reached)).timeouts
    exact ⟨step.1.trans same.1, step.2.trans same.2⟩

/-- A server that does not lead stands for election in a call exactly if the time that the timer
shows after it reaches the timeout; otherwise the timer shows that time. -/
theorem TimerStep.isCandidacy_iff {s : RaftServer Node} {event : Event Node}
    {effect : Effect (RaftServer Node) (Action Node)} (timed : TimerStep s event effect)
    (result : StepResult s event effect) (idle : s.hasPendingEntry = false)
    (undecided : s.state ≠ .leader) (positive : 0 < s.electionTimeout)
    (early : s.timeoutElapsed < s.electionTimeout) :
    (isCandidacy ⟨s, event, effect.state, effect.emitted⟩ = true ↔
      s.electionTimeout ≤ quietAfter s.timeoutElapsed event) ∧
    (isCandidacy ⟨s, event, effect.state, effect.emitted⟩ = false →
      effect.state.timeoutElapsed = quietAfter s.timeoutElapsed event) := by
  cases timed with
  | call untimed same =>
      -- Without a tick no call raises the term of a candidate.
      have no : isCandidacy ⟨s, event, effect.state, effect.emitted⟩ = false := by
        rw [isCandidacy, decide_eq_false_iff_not]
        rintro ⟨candidate, rises⟩
        simp only at candidate rises
        cases result.activeAfter idle (Or.inr candidate) with
        | kept _ term => omega
        | stood _ _ => cases untimed
        | elected _ leads _ _ _ => rw [leads] at candidate; cases candidate
      have still : quietAfter s.timeoutElapsed event < s.electionTimeout := by
        cases event with
        | recvAppendentries asResponce node ae stack =>
            simp only [quietAfter]
            split <;> assumption
        | periodic msec rand => cases untimed
        | _ => exact early
      exact ⟨by simp [no, still], fun _ => same.elapsed⟩
  | waited below =>
      rw [deadline, if_neg undecided] at below
      exact ⟨by simp [isCandidacy, quietAfter, below], fun _ => rfl⟩
  | heartbeat leads _ => exact absurd leads undecided
  | @stood msec rand _ due =>
      have raised := s.termIncrement_pos rand.1
      have yes : s.currentTerm < s.currentTerm + s.termIncrement rand.1 := by omega
      refine ⟨by simp [isCandidacy, quietAfter, due, yes], fun no => ?_⟩
      simp [isCandidacy, yes] at no

/-- A server that does not lead stands for election during a sequence of calls exactly if at some
point the ticks since an AppendEntries message last came as such, or since the start, add up to
`election_timeout`. What other messages arrive, and whether the AppendEntries messages are
accepted, makes no difference. -/
theorem stands_iff_silent {config : Config Node} {past trace : List (Step Node)}
    {start s : RaftServer Node} (reached : RunFrom config past start)
    (run : (machine Node).Run start trace s) (follows : ∀ t ∈ trace, t.before.state ≠ .leader)
    (positive : 0 < config.electionTimeout)
    (early : start.timeoutElapsed < config.electionTimeout) :
    (∃ t ∈ trace, isCandidacy t = true) ↔
      ∃ part, part <+: trace ∧
        config.electionTimeout ≤ quietTime start.timeoutElapsed part := by
  suffices invariant : RunFrom config (past ++ trace) s ∧
      ((∃ t ∈ trace, isCandidacy t = true) ↔ ∃ part, part <+: trace ∧
        config.electionTimeout ≤ quietTime start.timeoutElapsed part) ∧
      ((∀ t ∈ trace, isCandidacy t = false) →
        s.timeoutElapsed = quietTime start.timeoutElapsed trace) from invariant.2.1
  apply run.invariant_along (P := fun _ t => t.before.state ≠ .leader)
    (fun trace s => RunFrom config (past ++ trace) s ∧
      ((∃ t ∈ trace, isCandidacy t = true) ↔ ∃ part, part <+: trace ∧
        config.electionTimeout ≤ quietTime start.timeoutElapsed part) ∧
      ((∀ t ∈ trace, isCandidacy t = false) →
        s.timeoutElapsed = quietTime start.timeoutElapsed trace)) ?_ ?_ (along_of_forall follows)
  · refine ⟨by rwa [List.append_nil], ?_, fun _ => rfl⟩
    simp only [List.not_mem_nil, false_and, exists_false, List.prefix_nil, exists_eq_left,
      false_iff]
    exact Int.not_le.mpr early
  · intro trace s event effect _ earlier stepped undecided
    obtain ⟨reached, stood, elapsed⟩ := earlier
    refine ⟨by rw [← List.append_assoc]; exact reached.snoc stepped, ?_⟩
    have extended : ∀ part, part <+: trace ++ [⟨s, event, effect.state, effect.emitted⟩] ↔
        part = trace ++ [⟨s, event, effect.state, effect.emitted⟩] ∨ part <+: trace :=
      fun part => List.prefix_concat_iff
    simp only [extended, or_and_right, exists_or, exists_eq_left, List.mem_append,
      List.mem_singleton, or_imp, forall_and, forall_eq, quietTime_append_singleton, ← stood]
    by_cases before : ∃ t ∈ trace, isCandidacy t = true
    · obtain ⟨t, member, candidacy⟩ := before
      refine ⟨iff_of_true (Or.inl ⟨t, member, candidacy⟩) (Or.inr ⟨t, member, candidacy⟩), ?_⟩
      rintro ⟨none, -⟩
      rw [none t member] at candidacy
      cases candidacy
    · have none : ∀ t ∈ trace, isCandidacy t = false := fun t member =>
        Bool.eq_false_iff.mpr fun candidacy => before ⟨t, member, candidacy⟩
      have idle := RunFrom.hasPendingEntry_eq_false reached
      obtain ⟨timeout, -⟩ := RunFrom.timeouts reached
      have shown := elapsed none
      have below : quietTime start.timeoutElapsed trace < config.electionTimeout := by
        by_contra late
        exact before (stood.mpr ⟨trace, List.prefix_refl _, Int.not_lt.mp late⟩)
      have here := (step_timerStep stepped idle).isCandidacy_iff (step_result stepped) idle
        undecided (by omega) (by omega)
      rw [shown, timeout] at here
      refine ⟨?_, fun all => here.2 all.2⟩
      rw [← here.1]
      simp [before]

/-- Two ticks around a refused message of a leader of an older term, and two more. -/
def ticksAroundStale (leader : Node) : List (Event Node) :=
  [.periodic 600 (0, 0), .recvAppendentries true leader (.new (-1) 0 0 0 0) (0, 0),
    .periodic 600 (0, 0), .periodic 300 (0, 0), .periodic 100 (0, 0)]

/-- The third tick since that message completes the timeout. -/
theorem member_stands_after_silence :
    (∃ t ∈ traceOn (0 : Fin 3) (ticksAroundStale 1), isCandidacy t = true) ∧
      ∃ part, part <+: traceOn (0 : Fin 3) (ticksAroundStale 1) ∧ 1000 ≤ quietTime 0 part :=
  ⟨by decide, (stands_iff_silent (.nil : RunFrom (.member 0) [] (init (.member (0 : Fin 3))))
    (run_traceOf (machine (Fin 3)) _ (ticksAroundStale 1) (by decide)) (by decide) (by decide)
    (by decide)).mp (by decide)⟩

/-- The message sets the timer back. -/
def heard : Event Node → Bool
  | .recvAppendentries asResponce _ _ _ => asResponce
  | _ => false

/-- The tick makes a leader send its heartbeats. -/
def isHeartbeat (t : Step Node) : Bool :=
  match t.event with
  | .periodic msec _ =>
      decide (t.before.state = .leader ∧
        t.before.requestTimeout ≤ t.before.timeoutElapsed + msec)
  | _ => false

/-- The rounds of heartbeats of a run. -/
def heartbeats (trace : List (Step Node)) : ℕ :=
  trace.countP isHeartbeat

/-- The heartbeats of a leader whose ticks are at most `most` long. -/
structure Beats (most : Int) (start : RaftServer Node) (reign : List (Step Node))
    (s : RaftServer Node) : Prop where
  request : s.requestTimeout = start.requestTimeout
  low : 0 ≤ s.timeoutElapsed
  high : s.timeoutElapsed < s.requestTimeout
  commit : s.leaderCommit = start.leaderCommit + heartbeats reign
  spaced : heartbeats reign * start.requestTimeout + s.timeoutElapsed ≤
    start.timeoutElapsed + ticked reign
  steady : start.timeoutElapsed + ticked reign ≤
    heartbeats reign * (start.requestTimeout + most) + s.timeoutElapsed
  rounds : ∀ t ∈ reign, isHeartbeat t = true →
    t.emitted = t.before.sends (t.before.peers false) fun node => .appendentries
      (.new t.before.currentTerm 0 (t.before.table.record node).nextIdx 0
        (t.before.leaderCommit + 1))

/-- A call that is no heartbeat keeps the number of rounds and the time since the last one. -/
theorem Beats.keep {most : Int} {start s after : RaftServer Node} {reign : List (Step Node)}
    {event : Event Node} {emitted : List (Action Node)} (beats : Beats most start reign s)
    (silent : isHeartbeat ⟨s, event, after, emitted⟩ = false)
    (request : after.requestTimeout = s.requestTimeout)
    (commit : after.leaderCommit = s.leaderCommit)
    (elapsed : after.timeoutElapsed = s.timeoutElapsed + (tick? event).getD 0)
    (low : 0 ≤ after.timeoutElapsed) (high : after.timeoutElapsed < s.requestTimeout) :
    Beats most start (reign ++ [⟨s, event, after, emitted⟩]) after := by
  have count : heartbeats (reign ++ [⟨s, event, after, emitted⟩]) = heartbeats reign := by
    simp [heartbeats, silent]
  have spaced := beats.spaced
  have steady := beats.steady
  refine ⟨request.trans beats.request, low, request ▸ high, ?_, ?_, ?_, ?_⟩
  · rw [count, commit, beats.commit]
  · rw [count, ticked_append_singleton, elapsed]
    simp only
    omega
  · rw [count, ticked_append_singleton, elapsed]
    simp only
    omega
  · intro t member beat
    rcases List.mem_append.mp member with old | new
    · exact beats.rounds t old beat
    · rw [List.mem_singleton.mp new, silent] at beat
      cases beat

/-- One call of a leader that hears of no other. A call of `periodic` adds its time, and
sends a round if that brings the sum to the request timeout. -/
theorem Beats.step {most : Int} {start s : RaftServer Node} {reign : List (Step Node)}
    {event : Event Node} {effect : Effect (RaftServer Node) (Action Node)}
    (beats : Beats most start reign s) (timed : TimerStep s event effect)
    (leads : s.state = .leader) (unheard : heard event = false)
    (tick : ∀ msec ∈ tick? event, 0 ≤ msec ∧ msec ≤ most) :
    Beats most start (reign ++ [⟨s, event, effect.state, effect.emitted⟩]) effect.state := by
  have low := beats.low
  have high := beats.high
  cases timed with
  | call untimed same =>
      have quiet : quietAfter s.timeoutElapsed event = s.timeoutElapsed := by
        cases event with
        | recvAppendentries asResponce node ae stack =>
            rw [heard] at unheard
            simp [quietAfter, unheard]
        | periodic msec rand => cases untimed
        | _ => rfl
      have elapsed := same.elapsed.trans quiet
      refine beats.keep ?_ same.request same.commit ?_ (by omega) (by omega)
      · cases event with
        | periodic msec rand => cases untimed
        | _ => rfl
      · rw [elapsed, untimed, Option.getD_none, Int.add_zero]
  | @waited msec rand early =>
      rw [deadline, if_pos leads] at early
      have bounds := tick msec rfl
      refine beats.keep ?_ rfl rfl rfl ?_ early
      · simp [isHeartbeat, leads, early]
      · simp only
        omega
  | @heartbeat msec rand _ due =>
      have bounds := tick msec rfl
      have spaced := beats.spaced
      have steady := beats.steady
      have request := beats.request
      have beat : isHeartbeat ⟨s, .periodic msec rand, { s with
          timeoutElapsed := 0, leaderCommit := s.leaderCommit + 1 },
          s.sends (s.peers false) fun node => .appendentries
            (.new s.currentTerm 0 (s.table.record node).nextIdx 0 (s.leaderCommit + 1))⟩ =
          true := by
        simp [isHeartbeat, leads, due]
      refine ⟨request, Int.le_refl 0, by simp only; omega, ?_, ?_, ?_, ?_⟩
      · simp only [heartbeats, List.countP_append, List.countP_singleton, beat, ↓reduceIte]
        have commit := beats.commit
        simp only [heartbeats] at commit
        push_cast
        omega
      · rw [ticked_append_singleton]
        simp only [heartbeats, List.countP_append, List.countP_singleton, beat, ↓reduceIte, tick?,
          Option.getD_some] at spaced ⊢
        push_cast
        linarith
      · rw [ticked_append_singleton]
        simp only [heartbeats, List.countP_append, List.countP_singleton, beat, ↓reduceIte, tick?,
          Option.getD_some] at steady ⊢
        push_cast
        linarith
      · intro t member again
        rcases List.mem_append.mp member with old | new
        · exact beats.rounds t old again
        · rw [List.mem_singleton.mp new]
  | stood undecided _ => exact absurd leads undecided

/-- The calls of a leader that hears of no other, by induction on the run from the step
above. -/
theorem beats_of_run {start s : RaftServer Node} {reign : List (Step Node)}
    (run : (machine Node).Run start reign s) (leads : ∀ t ∈ reign, t.before.state = .leader)
    (unheard : ∀ t ∈ reign, heard t.event = false) {most : Int}
    (ticks : ∀ t ∈ reign, ∀ msec ∈ tick? t.event, 0 ≤ msec ∧ msec ≤ most)
    (low : 0 ≤ start.timeoutElapsed) (high : start.timeoutElapsed < start.requestTimeout) :
    Beats most start reign s := by
  apply run.invariant_along (P := fun _ t => t.before.state = .leader ∧ heard t.event = false ∧
    ∀ msec ∈ tick? t.event, 0 ≤ msec ∧ msec ≤ most) (Beats most start)
  · refine ⟨rfl, low, high, ?_, ?_, ?_, fun t member => ?_⟩
    · simp [heartbeats]
    · simp [heartbeats, ticked]
    · simp [heartbeats, ticked]
    · cases member
  · rintro reign s event effect _ beats stepped ⟨leads, unheard, tick⟩
    have idle : s.hasPendingEntry = false := by
      simp only at leads
      simp [hasPendingEntry, leads]
    exact beats.step (step_timerStep stepped idle) leads unheard tick
  · exact along_of_forall fun t member => ⟨leads t member, unheard t member, ticks t member⟩

/-- In time that adds up to `T` a leader sends more than `T` divided by the longest spacing. -/
theorem Beats.lt_spacing {most : Int} {start s : RaftServer Node} {reign : List (Step Node)}
    (beats : Beats most start reign s) :
    start.timeoutElapsed + ticked reign <
      heartbeats reign * (start.requestTimeout + most) + start.requestTimeout := by
  have steady := beats.steady
  have below := beats.high
  rw [beats.request] at below
  omega

/-- A leader that is sent no AppendEntries message as such, and whose ticks are at most `most`
long, sends its rounds of heartbeats not more often than every `request_timeout` and not less
often than every `request_timeout` and one tick. Each round addresses every other node once,
and `m_nLeaderCommit` counts the rounds. -/
theorem leader_sends_heartbeats {start s : RaftServer Node} {reign : List (Step Node)}
    (run : (machine Node).Run start reign s) (leads : ∀ t ∈ reign, t.before.state = .leader)
    (unheard : ∀ t ∈ reign, heard t.event = false) (most : Int)
    (ticks : ∀ t ∈ reign, ∀ msec ∈ tick? t.event, 0 ≤ msec ∧ msec ≤ most)
    (low : 0 ≤ start.timeoutElapsed) (high : start.timeoutElapsed < start.requestTimeout) :
    heartbeats reign * start.requestTimeout ≤ start.timeoutElapsed + ticked reign ∧
      start.timeoutElapsed + ticked reign <
        heartbeats reign * (start.requestTimeout + most) + start.requestTimeout ∧
      s.leaderCommit = start.leaderCommit + heartbeats reign ∧
      ∀ t ∈ reign, isHeartbeat t = true →
        t.emitted = t.before.sends (t.before.peers false) fun node => .appendentries
          (.new t.before.currentTerm 0 (t.before.table.record node).nextIdx 0
            (t.before.leaderCommit + 1)) := by
  have beats := beats_of_run run leads unheard ticks low high
  have spaced := beats.spaced
  have positive := beats.low
  exact ⟨by omega, beats.lt_spacing, beats.commit, beats.rounds⟩

/-- Ticks of a leader, with a client entry between them. -/
def leaderTicks (client : Node) : List (Event Node) :=
  [.periodic 150 (0, 0), .recvEntry client ⟨7, [1]⟩, .periodic 150 (0, 0), .periodic 150 (0, 0),
    .periodic 150 (0, 0)]

/-- A leader of three sends two rounds of heartbeats, and its commit index for them rises by
two. -/
theorem leader_of_three_sends_heartbeats :
    heartbeats (traceOf (machine (Fin 3)) (stateOn 0 (candidacy 1000 (0, 0) ⟨0, 1⟩ [1]))
        (leaderTicks 2)) = 2 ∧
      (stateOf (machine (Fin 3)) (stateOn 0 (candidacy 1000 (0, 0) ⟨0, 1⟩ [1]))
        (leaderTicks 2)).leaderCommit = 0 + (2 : ℕ) :=
  ⟨by decide, (leader_sends_heartbeats
    (run_traceOf (machine (Fin 3)) (stateOn 0 (candidacy 1000 (0, 0) ⟨0, 1⟩ [1]))
      (leaderTicks 2) (by decide)) (by decide) (by decide)
    150 (by decide) (by decide) (by decide)).2.2.1⟩

end RaftServer

end CppRaft
