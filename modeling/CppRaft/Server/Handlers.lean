import CppRaft.Server.State

/-!
# The handlers of a server

`raft_server.cpp`, function by function, under the source's names. A call that
cannot fail is an `Effect`; one that may throw or index outside the log is an
`Outcome`. The two `rand()` results that `become_candidate` uses, and the bytes
of the stack that an AppendEntries reply leaves unset, are arguments.
-/

namespace CppRaft

open Machine

namespace RaftServer

variable {Node : Type} [DecidableEq Node]

/-- `forAllNodesExceptSelf`. -/
def forAllNodesExceptSelf
    (callback : Node → RaftServer Node → Effect (RaftServer Node) (Action Node))
    (skipLeader : Bool) (s : RaftServer Node) : Effect (RaftServer Node) (Action Node) :=
  Effect.forEach
    (fun node s =>
      if some node = s.thisNode then .done s
      else if skipLeader ∧ (s.table.record node).isLeader then .done s
      else callback node s)
    s.table.nodes s

/-- `send_requestvote`. -/
def sendRequestvote (node : Node) (s : RaftServer Node) :
    Effect (RaftServer Node) (Action Node) :=
  if s.callbacks.send then
    ⟨s, [.send node (.requestvote ⟨s.currentTerm, 0, s.currentIdx, 0⟩)]⟩
  else .done s

/-- `send_appendentries`. The constructor's arguments are the source's, in its order. -/
def sendAppendentries (node : Node) (s : RaftServer Node) :
    Effect (RaftServer Node) (Action Node) :=
  let ae := MsgAppendEntries.new s.currentTerm 0 (s.table.record node).nextIdx 0 s.leaderCommit
  if s.callbacks.send then
    ⟨s, .send node (.appendentries ae) ::
      if ae.entries.length ≠ 0 then [.send node (.appendentriesPayload ae.entries)] else []⟩
  else .done s

/-- `send_appendentries_all`. -/
def sendAppendentriesAll (s : RaftServer Node) : Effect (RaftServer Node) (Action Node) :=
  forAllNodesExceptSelf sendAppendentries false { s with leaderCommit := s.leaderCommit + 1 }

/-- `become_leader`. -/
def becomeLeader (s : RaftServer Node) : Effect (RaftServer Node) (Action Node) :=
  forAllNodesExceptSelf
    (fun node s => sendAppendentries node (s.setNextIdx node (s.currentIdx + 1)))
    true { s with state := .leader, votedFor := none }

/-- `MINIMUM_RAND_FACTOR`. -/
def minimumRandFactor : ℕ := 6

/-- The amount `become_candidate` adds to the term when `rand()` returns `rand`. -/
def termIncrement (s : RaftServer Node) (rand : ℕ) : Int :=
  let nRandFactor :=
    if minimumRandFactor < s.table.count then s.table.count else minimumRandFactor
  1 + (rand % nRandFactor : ℕ)

/-- `become_candidate`. -/
def becomeCandidate (rand : ℕ × ℕ) (s : RaftServer Node) :
    Effect (RaftServer Node) (Action Node) :=
  forAllNodesExceptSelf sendRequestvote true
    { s with
      currentTerm := s.currentTerm + s.termIncrement rand.1
      votedFor := s.thisNode
      state := .candidate
      timeoutElapsed := (rand.2 % 500 : ℕ) }

/-- `become_follower`. -/
def becomeFollower (s : RaftServer Node) : RaftServer Node :=
  { s with state := .follower, votedFor := none }

/-- `append_entry`. -/
def appendEntry (c : RaftEntry) (s : RaftServer Node) :
    Outcome (RaftServer Node) (Action Node) Int :=
  match s.log.logAppendEntry c with
  | (result, log) =>
      if result = 1 then
        ⟨.returned 1, { s with log := log, currentIdx := s.currentIdx + 1 },
          [.appended log.logCount]⟩
      else ⟨.returned 0, s, []⟩

/-- `apply_entry`. -/
def applyEntry (s : RaftServer Node) : Outcome (RaftServer Node) (Action Node) Int :=
  match s.log.logGetFromIdx (s.lastAppliedIdx + 1) with
  | .returned e =>
      let applied := s.lastAppliedIdx + 1
      ⟨.returned 1,
        { s with
          lastAppliedIdx := applied
          commitIdx := if s.commitIdx < applied then applied else s.commitIdx },
        if s.callbacks.applylog then [.applylog applied e] else []⟩
  | .thrown => ⟨.returned 0, s, []⟩
  | .undefined => ⟨.undefined, s, []⟩
  | .diverged => ⟨.diverged, s, []⟩

/-- The test that guards the apply branch of `periodic`. -/
def hasPendingEntry (s : RaftServer Node) : Bool :=
  decide (s.state = .follower ∧ s.lastAppliedIdx < s.commitIdx)

/-- The timer part of `periodic`, which runs unless the apply branch returned early. -/
def advanceTimer (msec : Int) (rand : ℕ × ℕ) (s : RaftServer Node) :
    Effect (RaftServer Node) (Action Node) :=
  let s := { s with timeoutElapsed := s.timeoutElapsed + msec }
  if s.state = .leader then
    if s.requestTimeout ≤ s.timeoutElapsed then
      (sendAppendentriesAll s).andThen fun s => .done { s with timeoutElapsed := 0 }
    else .done s
  else if s.electionTimeout ≤ s.timeoutElapsed then becomeCandidate rand s
  else .done s

/-- `periodic`. -/
def periodic (msec : Int) (rand : ℕ × ℕ) (s : RaftServer Node) :
    Outcome (RaftServer Node) (Action Node) Int :=
  if s.hasPendingEntry then
    (applyEntry s).bind fun result s =>
      if result = 0 then (Effect.done s).returning 0
      else (advanceTimer msec rand s).returning 1
  else (advanceTimer msec rand s).returning 1

/-- The marking loop of `recv_appendentries_response`, with `count` indices left from `idx`. -/
def markNodeHasCommitted : (count : ℕ) → (idx : Int) → RaftServer Node →
    Outcome (RaftServer Node) (Action Node) Unit
  | 0, _, s => (Effect.done s).returning ()
  | count + 1, idx, s =>
      (Outcome.ofExit (s.log.logMarkNodeHasCommitted idx) s).bind fun log s =>
        markNodeHasCommitted count (idx + 1) { s with log := log }

/-- One pass of the commit loop of `recv_appendentries_response`; `false` leaves the loop. -/
def commitNext (currentIdx : Int) (s : RaftServer Node) :
    Outcome (RaftServer Node) (Action Node) Bool :=
  if s.commitIdx < currentIdx then
    (Outcome.ofExit (s.log.logGetFromIdx (s.lastAppliedIdx + 1)) s).bind fun e s =>
      if ((s.table.count / 2 : ℕ) : Int) ≤ e.numNodes then
        (applyEntry s).bind fun result s =>
          if result ≠ 1 then ⟨.thrown, s, []⟩
          else (Effect.done s).returning (decide (e.id ≠ currentIdx))
      else (Effect.done s).returning false
  else (Effect.done s).returning false

/-- `recv_appendentries_response`. -/
def recvAppendentriesResponse (node : Node) (r : MsgAppendentriesResponse)
    (s : RaftServer Node) : Outcome (RaftServer Node) (Action Node) Int :=
  if r.success = 1 then
    (markNodeHasCommitted (r.currentIdx - r.firstIdx + 1).toNat r.firstIdx
        (s.setNextIdx node r.currentIdx)).bind fun _ s =>
      (Outcome.loop (commitNext r.currentIdx) (s.log.length + 1) s).bind fun _ s =>
        (Effect.done s).returning 1
  else (sendAppendentries node s).returning 1

/-- The reply at the end of `recv_appendentries`. -/
def replyAppendentries (node : Node) (r : MsgAppendentriesResponse) (s : RaftServer Node) :
    Effect (RaftServer Node) (Action Node) :=
  if s.callbacks.send then ⟨s, [.send node (.appendentriesResponse r)]⟩ else .done s

/-- Steps 2 and 3 of `recv_appendentries`: the log without the entries after `prevLogIdx`, or
`none` where the message is refused. -/
def deleteConflicts (ae : MsgAppendEntries) (log : RaftLogger) : Exit (Option RaftLogger) :=
  if ae.hasAnyLogs then
    match log.logGetFromIdx ae.prevLogIdx with
    | .returned e =>
        if e.term ≠ ae.prevLogTerm then .returned none
        else
          match log.logDelete (ae.prevLogIdx + 1) with
          | .returned kept => .returned (some kept)
          | .thrown => .returned (some log)
          | .undefined => .undefined
          | .diverged => .diverged
    | .thrown => .returned none
    | .undefined => .undefined
    | .diverged => .diverged
  else .returned (some log)

/-- Apply entries while `apply_entry` returns one. -/
def applyEntries (s : RaftServer Node) : Outcome (RaftServer Node) (Action Node) Unit :=
  Outcome.loop
    (fun s => (applyEntry s).bind fun result s =>
      (Effect.done s).returning (decide (result = 1)))
    (s.log.length + 1) s

/-- Step 5 of `recv_appendentries`. -/
def advanceCommit (ae : MsgAppendEntries) (s : RaftServer Node) :
    Outcome (RaftServer Node) (Action Node) Unit :=
  if s.commitIdx < ae.leaderCommit then
    match s.log.logPeektail with
    | .returned e =>
        let idx := if e.id < ae.leaderCommit then e.id else ae.leaderCommit
        applyEntries { s with commitIdx := idx, lastAppliedIdx := idx }
    | .thrown => (Effect.done s).returning ()
    | .undefined => ⟨.undefined, s, []⟩
    | .diverged => ⟨.diverged, s, []⟩
  else (Effect.done s).returning ()

/-- The append loop of `recv_appendentries`; zero if an entry was refused. -/
def appendMsgEntries : List MsgEntry → RaftServer Node →
    Outcome (RaftServer Node) (Action Node) Int
  | [], s => (Effect.done s).returning 1
  | entry :: rest, s =>
      (appendEntry (RaftEntry.ofMsgEntry s.currentTerm entry) s).bind fun result s =>
        if result = 0 then (Effect.done s).returning 0 else appendMsgEntries rest s

/-- A candidate that accepts a message becomes a follower. -/
def demote (s : RaftServer Node) : RaftServer Node :=
  if s.state = .candidate then becomeFollower s else s

/-- The end of `recv_appendentries`: the term is adopted, the entries are appended and the
message is answered. -/
def appendAndReply (node : Node) (ae : MsgAppendEntries) (r : MsgAppendentriesResponse)
    (s : RaftServer Node) : Outcome (RaftServer Node) (Action Node) Int :=
  (appendMsgEntries ae.entries { demote s with currentTerm := ae.term }).bind fun result s =>
    if result = 0 then (replyAppendentries node r s).returning 1
    else
      (replyAppendentries node
        { r with success := 1, currentIdx := s.currentIdx, firstIdx := ae.prevLogIdx + 1 }
        s).returning 1

/-- The head of `recv_appendentries`: the timer is reset and a leader that hears of one in
its own or a later term steps down. -/
def noticeLeader (asResponce : Bool) (ae : MsgAppendEntries) (s : RaftServer Node) :
    RaftServer Node :=
  let s := if asResponce then { s with timeoutElapsed := 0 } else s
  if s.state = .leader ∧ s.currentTerm ≤ ae.term then becomeFollower s else s

/-- `recv_appendentries`. A refused message is answered with `current_idx` and `first_idx`
as found on the stack. -/
def recvAppendentries (asResponce : Bool) (node : Node) (ae : MsgAppendEntries)
    (stack : Int × Int) (s : RaftServer Node) :
    Outcome (RaftServer Node) (Action Node) Int :=
  let r : MsgAppendentriesResponse := ⟨s.currentTerm, 0, stack.1, stack.2⟩
  let s := noticeLeader asResponce ae s
  if ae.term < s.currentTerm then (replyAppendentries node r s).returning 1
  else
    (Outcome.ofExit (deleteConflicts ae s.log) s).bind fun kept s =>
      match kept with
      | none => (replyAppendentries node r s).returning 1
      | some log =>
          (advanceCommit ae { s with log := log }).bind fun _ s => appendAndReply node ae r s

/-- `recv_requestvote`. -/
def recvRequestvote (node : Node) (vr : MsgRequestvote) (s : RaftServer Node) :
    Effect (RaftServer Node) (Action Node) :=
  let s := if s.currentTerm < vr.term then { s with votedFor := none } else s
  let refused := vr.term < s.currentTerm ∨ s.votedFor.isSome ∨ vr.lastLogIdx < s.currentIdx
  let s := if refused then s else { s with votedFor := some node }
  let r : MsgRequestvoteResponse := ⟨s.currentTerm, if refused then 0 else 1⟩
  if s.callbacks.send then ⟨s, [.send node (.requestvoteResponse r)]⟩ else .done s

/-- `get_nvotes_for_me`. -/
def getNvotesForMe (s : RaftServer Node) : ℕ :=
  (s.table.nodes.filter fun node =>
    some node ≠ s.thisNode ∧ (s.table.record node).votesForMe = 1).length +
    if s.votedFor = s.thisNode then 1 else 0

/-- `raft_votes_is_majority`. -/
def raftVotesIsMajority (numNodes nvotes : Int) : Bool :=
  if numNodes < nvotes then false
  else decide (numNodes.tdiv 2 + 1 ≤ nvotes)

/-- `recv_requestvote_response`. -/
def recvRequestvoteResponse (node : Node) (r : MsgRequestvoteResponse) (s : RaftServer Node) :
    Effect (RaftServer Node) (Action Node) :=
  if s.state = .leader then .done s
  else if r.voteGranted = 1 then
    let s := s.setVotesForMe node 1
    if raftVotesIsMajority (s.table.count - 1) s.getNvotesForMe then becomeLeader s
    else .done s
  else .done (s.setVotesForMe node 0)

/-- `send_entry_response`. -/
def sendEntryResponse (node : Node) (id : UInt32) (wasCommitted : Int) (s : RaftServer Node) :
    Effect (RaftServer Node) (Action Node) :=
  if s.callbacks.send then ⟨s, [.send node (.entryResponse ⟨id, wasCommitted⟩)]⟩ else .done s

/-- `recv_entry`. -/
def recvEntry (node : Node) (e : MsgEntry) (s : RaftServer Node) :
    Outcome (RaftServer Node) (Action Node) Int :=
  (appendEntry (RaftEntry.ofMsgEntry s.currentTerm e) s).bind fun result s =>
    ((sendEntryResponse node e.id result s).andThen
      (forAllNodesExceptSelf sendAppendentries false)).returning 0

end RaftServer

end CppRaft
