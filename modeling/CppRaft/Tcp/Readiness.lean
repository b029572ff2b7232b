import Mathlib.Data.List.Induction
import CppRaft.Machine.Trace
import CppRaft.Tcp.Frames

/-!
# Nodes that are not ready

`m_okCount` of a node starts below zero, and as long as it is there `SendClbkFunction` drops
what it should send and counts up. The first sign of life sets it to zero. From then on every
`response::ok` of the node increments it, and the field has ten bits: after 511 responses the
next one takes it to -512, and the node counts as not ready again.
-/

namespace CppRaft

namespace Tcp

open Machine

namespace Peer

/-- `INITIAL_PING_COUNT`. -/
def initialPingCount : Int := -25

/-- `BITS_OF_OK_COUNT`. -/
def bitsOfOkCount : ℕ := 10

/-- A node as its constructor leaves it. -/
def new : Peer where
  okCount := initialPingCount
  pingCount := 0
  isAbleToVote := true

/-- `RaftNode2::pingReceived`. -/
def pingReceived (peer : Peer) : Peer where
  okCount := if peer.okCount < 0 then 0 else peer.okCount
  pingCount := 0
  isAbleToVote := true

/-- `RaftNode2::incrementOkCount`, in a signed field of `BITS_OF_OK_COUNT` bits. -/
def incrementOkCount (peer : Peer) : Peer :=
  { peer with okCount := (peer.okCount + 1).bmod (2 ^ bitsOfOkCount) }

end Peer

/-- What happens to a node: a `response::ok` or another sign of life is received, or a message is
to be sent to it. -/
inductive PeerEvent where
  | responseOk
  | ping
  | send (unseen : Int) (isLeader : Bool) (type : MessageType) (sendData : List UInt8)
  deriving DecidableEq

/-- The events that call `pingReceived`. -/
def PeerEvent.isPing : PeerEvent → Bool
  | responseOk => true
  | ping => true
  | send _ _ _ _ => false

namespace Peer

/-- What an event makes of a node, with the bytes that it writes. -/
def handle (o : ByteOrder) : PeerEvent → Peer → Effect Peer UInt8
  | .responseOk, peer => .done peer.pingReceived.incrementOkCount
  | .ping, peer => .done peer.pingReceived
  | .send unseen isLeader type sendData, peer =>
      let sent := sendClbkFunction o ⟨peer, unseen, isLeader⟩ type sendData
      ⟨sent.peer, sent.written⟩

/-- A node as a machine. -/
def machine (o : ByteOrder) : Machine Peer PeerEvent UInt8 where
  step := fun peer event => some (handle o event peer)

/-- One event of a node. -/
abbrev Step : Type :=
  Transition Peer PeerEvent UInt8

/-- The message is dropped because the node counts as not ready. -/
def Drops (t : Step) : Prop :=
  (∃ unseen isLeader type sendData, t.event = .send unseen isLeader type sendData) ∧
    t.before.okCount < 0

/-- The number of `response::ok` among some events. -/
def responses (trace : List Step) : ℕ :=
  trace.countP fun t => t.event = .responseOk

variable {o : ByteOrder}

/-- A call of `SendClbkFunction` counts a node up that is not ready and leaves it otherwise. -/
theorem okCount_sendClbkFunction (c : SendContext) (type : MessageType) (sendData : List UInt8) :
    (sendClbkFunction o c type sendData).peer.okCount =
      if c.peer.okCount < 0 then c.peer.okCount + 1 else c.peer.okCount := by
  unfold sendClbkFunction ping
  split
  · rfl
  · split
    · rfl
    · simp only
      repeat' split
      all_goals rfl

/-- A call of `SendClbkFunction` counts a probe of a silent node that is ready and not removed. -/
theorem pingCount_sendClbkFunction (c : SendContext) (type : MessageType)
    (sendData : List UInt8) :
    (sendClbkFunction o c type sendData).peer.pingCount =
      if c.writes type = true ∧ minUnseenTimeToDisplay < c.unseen then c.peer.pingCount + 1
      else c.peer.pingCount := by
  unfold sendClbkFunction SendContext.writes
  by_cases waiting : c.peer.okCount < 0
  · simp [waiting, Int.not_le.mpr waiting]
  by_cases removed : type = .appendentries ∧ maxUnseenTimeToChangeState < c.unseen ∧ c.isLeader ∧
      2 < c.peer.pingCount
  · simp [waiting, removed]
  have below (few : c.peer.pingCount < 4) : c.peer.pingCount < 8 := by omega
  by_cases unable : type = .requestvote ∧ maxUnseenTimeToChangeState < c.unseen ∧
      2 < c.peer.pingCount <;>
    by_cases silent : minUnseenTimeToDisplay < c.unseen <;>
    by_cases few : c.peer.pingCount < 4 <;>
    simp [waiting, removed, silent, few, unable, Peer.ping, below]

/-- Two nodes with the same counts; whether they may vote is left aside. -/
def SameCounts (peer other : Peer) : Prop :=
  peer.okCount = other.okCount ∧ peer.pingCount = other.pingCount

/-- The counts after an event depend on the counts before it, and not on the ability to
vote. -/
theorem SameCounts.handle {peer other : Peer} (same : peer.SameCounts other) (event : PeerEvent) :
    (handle o event peer).state.SameCounts (handle o event other).state := by
  obtain ⟨ok, pings⟩ := same
  cases event with
  | responseOk =>
      refine ⟨?_, rfl⟩
      simp only [Peer.handle, Effect.done, incrementOkCount, pingReceived, ok]
  | ping =>
      refine ⟨?_, rfl⟩
      simp only [Peer.handle, Effect.done, pingReceived, ok]
  | send unseen isLeader type sendData =>
      have writes : SendContext.writes ⟨peer, unseen, isLeader⟩ type =
          SendContext.writes ⟨other, unseen, isLeader⟩ type := by
        simp only [SendContext.writes, ok, pings]
      refine ⟨?_, ?_⟩
      · simp only [Peer.handle, okCount_sendClbkFunction, ok]
      · simp only [Peer.handle, pingCount_sendClbkFunction, writes, pings]

/-- Until the first sign of life the count only moves up to zero. -/
theorem okCount_of_unseen {trace : List Step} {peer : Peer}
    (run : (machine o).Run new trace peer) (unseen : ∀ t ∈ trace, t.event.isPing = false) :
    peer.okCount ≤ 0 := by
  induction run with
  | nil => decide
  | @snoc trace peer event effect earlier stepped ih =>
      obtain rfl := Option.some.inj stepped
      have before := ih fun t member => unseen t (List.mem_append_left _ member)
      have quiet := unseen ⟨peer, event, _, _⟩ (List.mem_append_right _ (List.mem_singleton_self _))
      cases event with
      | responseOk => cases quiet
      | ping => cases quiet
      | send u l type sendData =>
          simp only [handle, okCount_sendClbkFunction]
          split <;> omega

/-- The count wraps around in its field. -/
theorem okCount_incrementOkCount {peer : Peer} (low : 0 ≤ peer.okCount)
    (high : peer.okCount ≤ 511) :
    peer.incrementOkCount.okCount = if peer.okCount = 511 then -512 else peer.okCount + 1 := by
  have field : ((2 ^ bitsOfOkCount : ℕ) : Int) = 1024 := rfl
  simp only [incrementOkCount]
  split
  · rename_i full
    rw [full]
    rfl
  · exact Int.bmod_eq_of_le (by rw [field]; omega) (by rw [field]; omega)

/-- An event of a node that is ready leaves the count, or counts a response. -/
theorem okCount_handle (event : PeerEvent) {peer : Peer} (low : 0 ≤ peer.okCount)
    (high : peer.okCount ≤ 511) :
    (handle o event peer).state.okCount =
      if event = .responseOk then if peer.okCount = 511 then -512 else peer.okCount + 1
      else peer.okCount := by
  have received : peer.pingReceived.okCount = peer.okCount := if_neg (Int.not_lt.mpr low)
  cases event with
  | responseOk =>
      rw [← received] at low high ⊢
      exact okCount_incrementOkCount low high
  | ping => exact received
  | send unseen isLeader type sendData =>
      exact (okCount_sendClbkFunction _ _ _).trans (if_neg (Int.not_lt.mpr low))

/-- The first sign of life sets the count to zero. -/
theorem okCount_first {event : PeerEvent} {peer : Peer} (low : peer.okCount ≤ 0)
    (ping : event.isPing = true) :
    (handle o event peer).state.okCount = if event = .responseOk then 1 else 0 := by
  have received : peer.pingReceived.okCount = 0 := by
    simp only [pingReceived]
    split <;> omega
  cases event with
  | responseOk =>
      refine (okCount_incrementOkCount ?_ ?_).trans ?_ <;> rw [received] <;> decide
  | ping => exact received
  | send unseen isLeader type sendData => cases ping

/-- Responses are counted event by event. -/
theorem responses_append (trace : List Step) (t : Step) :
    responses (trace ++ [t]) = responses trace + if t.event = .responseOk then 1 else 0 := by
  simp [responses, List.countP_append, List.countP_cons]

/-- From the first sign of life on, the count is the number of responses as long as they fit, and
it stays above zero only so long. -/
theorem okCount_counts {past rest : List Step} {first : Step} {peer : Peer}
    (run : (machine o).Run new (past ++ first :: rest) peer)
    (unseen : ∀ t ∈ past, t.event.isPing = false) (ping : first.event.isPing = true) :
    ((∀ t ∈ first :: rest, 0 ≤ t.after.okCount) ↔ responses (first :: rest) ≤ 511) ∧
      (responses (first :: rest) ≤ 511 → peer.okCount = responses (first :: rest)) := by
  induction rest using List.reverseRecOn generalizing peer with
  | nil =>
      obtain ⟨earlier, stepped⟩ := run.at_split
      obtain rfl := run.eq_after
      have start : first.after.okCount = if first.event = .responseOk then 1 else 0 := by
        rw [← okCount_first (o := o) (okCount_of_unseen earlier unseen) ping]
        exact congrArg (·.state.okCount) (Option.some.inj stepped).symm
      have counted : responses [first] = if first.event = .responseOk then 1 else 0 :=
        (responses_append [] first).trans (Nat.zero_add _)
      rw [List.forall_mem_singleton, counted, start]
      split <;> decide
  | append_singleton rest t ih =>
      rw [← List.cons_append, ← List.append_assoc] at run
      obtain ⟨earlier, stepped⟩ := run.at_split
      obtain rfl := run.eq_after
      obtain ⟨kept, count⟩ := ih earlier
      rw [← List.cons_append, responses_append]
      simp only [List.mem_append, List.mem_singleton, or_imp, forall_and, forall_eq, kept]
      by_cases fits : responses (first :: rest) ≤ 511
      · have before := count fits
        have after : t.after.okCount = _ :=
          (congrArg (·.state.okCount) (Option.some.inj stepped).symm).trans
            (okCount_handle t.event (by omega) (by omega))
        rw [after, before]
        split
        · split <;> omega
        · omega
      · split <;> omega

/-- A node that has given a sign of life, and at most 511 responses in all, counts as ready;
the bound is where the bit field wraps. -/
theorem okCount_nonneg_of_seen {trace : List Step} {peer : Peer}
    (run : (machine o).Run new trace peer) (seen : ∃ t ∈ trace, t.event.isPing = true)
    (few : responses trace ≤ 511) : 0 ≤ peer.okCount := by
  cases found : trace.find? fun t => t.event.isPing with
  | none =>
      obtain ⟨t, member, ping⟩ := seen
      exact absurd ping (List.find?_eq_none.mp found t member)
  | some first =>
      obtain ⟨ping, past, rest, rfl, unseen⟩ := List.find?_eq_some_iff_append.mp found
      have fits : responses (first :: rest) ≤ 511 := by
        rw [responses, List.countP_append] at few
        exact Nat.le_trans (Nat.le_add_left _ _) few
      rw [(okCount_counts run (fun t member => by simpa using unseen t member) ping).2 fits]
      exact Int.natCast_nonneg _

/-- A node that has been seen stays ready, and no message to it is dropped for its count, if and
only if at most 511 responses follow. -/
theorem ready_since_first_ping_iff (past rest : List Step) (first : Step) (peer : Peer)
    (run : (machine o).Run new (past ++ first :: rest) peer)
    (unseen : ∀ t ∈ past, t.event.isPing = false) (ping : first.event.isPing = true) :
    ((∀ t ∈ first :: rest, 0 ≤ t.after.okCount) ∧ ∀ t ∈ rest, ¬Drops t) ↔
      responses (first :: rest) ≤ 511 := by
  obtain ⟨kept, -⟩ := okCount_counts run unseen ping
  rw [← kept]
  refine and_iff_left_of_imp fun ready t member dropped => ?_
  obtain ⟨before, after, rfl⟩ := List.append_of_mem member
  rw [← List.cons_append, ← List.append_assoc] at run
  obtain ⟨reached, -⟩ := run.at_split
  -- The step starts where the one before it ended.
  have fits := (okCount_counts reached unseen ping).1.mp fun u earlier =>
    ready u (by simp only [List.mem_cons, List.mem_append] at earlier ⊢; tauto)
  have counted := (okCount_counts reached unseen ping).2 fits
  have negative := dropped.2
  omega

/-- A new node that has been seen, and one that has answered. -/
theorem ready_since_first_ping_once :
    (machine .little).Run new
        [⟨new, .ping, new.pingReceived, []⟩,
          ⟨new.pingReceived, .responseOk, new.pingReceived.incrementOkCount, []⟩]
        new.pingReceived.incrementOkCount ∧
      0 ≤ new.pingReceived.incrementOkCount.okCount := by
  have run : (machine .little).Run new
      ([] ++ ⟨new, .ping, new.pingReceived, []⟩ ::
        [⟨new.pingReceived, .responseOk, new.pingReceived.incrementOkCount, []⟩])
      new.pingReceived.incrementOkCount :=
    run_traceOf (machine .little) _ [.ping, .responseOk] rfl
  have ready := (ready_since_first_ping_iff _ _ _ _ run (List.forall_mem_nil _) rfl).mpr (by decide)
  exact ⟨run, ready.1 _ (List.mem_cons_of_mem _ List.mem_cons_self)⟩

/-- A new node becomes this one by a number of responses. -/
def Answered (n : ℕ) (peer : Peer) : Prop :=
  ∃ trace : List Step, trace.length = n ∧ (∀ t ∈ trace, t.event = .responseOk) ∧
    (machine .little).Run new trace peer

/-- One more response. -/
theorem Answered.next {n : ℕ} {peer : Peer} (answered : Answered n peer) :
    Answered (n + 1) peer.pingReceived.incrementOkCount := by
  obtain ⟨trace, length, answers, run⟩ := answered
  have step : (machine .little).step peer .responseOk =
      some (.done peer.pingReceived.incrementOkCount) := rfl
  refine ⟨_, ?_, ?_, run.snoc step⟩
  · rw [List.length_append, length, List.length_singleton]
  · intro t member
    rcases List.mem_append.mp member with earlier | last
    · exact answers t earlier
    · rw [List.mem_singleton.mp last]

/-- Below 511 a response raises the counter by one; there the field of ten bits is full. -/
theorem responded {c : Int} (low : 0 ≤ c) (high : c < 511) :
    (pingReceived ⟨c, 0, true⟩).incrementOkCount = ⟨c + 1, 0, true⟩ := by
  have received : pingReceived ⟨c, 0, true⟩ = ⟨c, 0, true⟩ := by
    simp only [pingReceived, if_neg (Int.not_lt.mpr low)]
  have count : (incrementOkCount ⟨c, 0, true⟩).okCount = c + 1 :=
    (okCount_incrementOkCount low (Int.le_of_lt high)).trans (if_neg (Int.ne_of_lt high))
  rw [received, ← count]
  rfl

/-- Up to 511 responses the counter is their number. -/
theorem answered_of_le {n : ℕ} (fits : n + 1 ≤ 511) : Answered (n + 1) ⟨(n + 1 : ℕ), 0, true⟩ := by
  induction n with
  | zero => exact Answered.next ⟨[], rfl, List.forall_mem_nil _, .nil⟩
  | succ n ih =>
      have next := (ih (by omega)).next
      rw [responded (by omega) (by omega)] at next
      exact next

/-- The response after 511 takes the count below zero, and the next message to the node is
dropped. -/
theorem answering_node_dropped :
    Answered 512 ⟨-512, 0, true⟩ ∧
      (sendClbkFunction .little ⟨⟨-512, 0, true⟩, 0, true⟩ .appendentries []).written = [] :=
  ⟨(answered_of_le (n := 510) (by decide)).next, by decide⟩

end Peer

end Tcp

end CppRaft
