import Mathlib.Algebra.Ring.Nat
import Mathlib.Data.List.DropRight
import CppRaft.Tcp.Readiness

/-!
# Nodes that are silent

Every sign of life of a node sets `m_lastSeen` and clears `m_pingCount`. What `SendClbkFunction`
does with a message depends on how long the node has been silent and on how many messages it was
sent in vain: after six seconds each message is a probe and is counted, and after four of them
nothing more is sent; after twenty seconds and three probes a leader that should send AppendEntries
asks a worker to remove the node, and a RequestVote takes its vote away. Over a whole run, with
the clock beside the node, the two numbers are those of the history since the last sign of life.
A probe counts whether its bytes go out or the write fails.

All this is for a node that counts as ready, which it does from its first sign of life to its
511th response; to any other node nothing is sent.
-/

namespace CppRaft

namespace Tcp

open Machine

/-- A node with `m_lastSeen` and the clock, in milliseconds. -/
structure Watch where
  peer : Peer
  lastSeen : Int
  now : Int
  deriving DecidableEq

/-- What happens to a node: it answers, it gives another sign of life, `become_candidate` takes its
vote away, or a message is to be sent to it, of whose frame the socket takes some bytes. -/
inductive Contact where
  | responseOk
  | ping
  | setUnableToVote
  | send (isLeader : Bool) (type : MessageType) (sendData : List UInt8) (taken : ℕ)
  deriving DecidableEq

/-- A contact, and how long after the one before. -/
structure WatchEvent where
  elapsed : ℕ
  contact : Contact
  deriving DecidableEq

/-- A frame is written to the node, with the bytes of it that go out, or a worker is asked to remove
the node. -/
inductive WatchAction where
  | frame (bytes : List UInt8)
  | removeNode
  deriving DecidableEq

/-- The contact is a sign of life of the node. -/
def Contact.isSign : Contact → Bool
  | responseOk => true
  | ping => true
  | setUnableToVote => false
  | send _ _ _ _ => false

/-- The contact as an event of the node, if it is one that changes a count. -/
def Contact.peerEvent? (unseen : Int) : Contact → Option PeerEvent
  | responseOk => some .responseOk
  | ping => some .ping
  | setUnableToVote => none
  | send isLeader type sendData _ => some (.send unseen isLeader type sendData)

namespace Watch

/-- A node that is constructed at a time. -/
def new (time : Int) : Watch :=
  ⟨.new, time, time⟩

/-- What a call of `SendClbkFunction` does outside the node, if the socket takes so many bytes: the
calls of `writeC` end with the first that fails. -/
def actions (taken : ℕ) (sent : Sent) : List WatchAction :=
  if sent.removeNode then [.removeNode]
  else if sent.written = [] then [] else [.frame (sent.written.take taken)]

/-- What an event makes of a node. -/
def handle (o : ByteOrder) (event : WatchEvent) (w : Watch) : Effect Watch WatchAction :=
  let now := w.now + event.elapsed
  match event.contact with
  | .responseOk => .done ⟨w.peer.pingReceived.incrementOkCount, now, now⟩
  | .ping => .done ⟨w.peer.pingReceived, now, now⟩
  | .setUnableToVote => .done ⟨{ w.peer with isAbleToVote := false }, w.lastSeen, now⟩
  | .send isLeader type sendData taken =>
      let sent := sendClbkFunction o ⟨w.peer, now - w.lastSeen, isLeader⟩ type sendData
      ⟨⟨sent.peer, w.lastSeen, now⟩, actions taken sent⟩

/-- A node and the clock as a machine. -/
def machine (o : ByteOrder) : Machine Watch WatchEvent WatchAction where
  step := fun w event => some (handle o event w)

/-- One event of a node. -/
abbrev Step : Type :=
  Transition Watch WatchEvent WatchAction

/-- The events since the last sign of life, or since the node was constructed. -/
def sinceSign (trace : List Step) : List Step :=
  trace.rtakeWhile fun t => !t.event.contact.isSign

/-- The time since the last sign of life. -/
def silence (trace : List Step) : ℕ :=
  ((sinceSign trace).map fun t => t.event.elapsed).sum

/-- A frame is written, whether or not it goes out, to a node that has been silent for six
seconds. -/
def isProbe (t : Step) : Bool :=
  decide (minUnseenTimeToDisplay < t.after.now - t.after.lastSeen ∧
    t.emitted ≠ [] ∧ .removeNode ∉ t.emitted)

/-- The number of probes since the last sign of life. -/
def probes (trace : List Step) : ℕ :=
  (sinceSign trace).countP isProbe

/-- The vote of the node is taken away: by `become_candidate`, or by a RequestVote that should be
sent to it after twenty seconds and three probes. -/
def takesVote (t : Step) : Bool :=
  match t.event.contact with
  | .setUnableToVote => true
  | .send _ .requestvote _ _ =>
      decide (0 ≤ t.before.peer.okCount ∧
        maxUnseenTimeToChangeState < t.after.now - t.after.lastSeen ∧ 2 < t.before.peer.pingCount)
  | _ => false

/-- The context of a call that asks for the removal of the node. -/
def asksRemoval (c : SendContext) (type : MessageType) : Prop :=
  type = .appendentries ∧ maxUnseenTimeToChangeState < c.unseen ∧ c.isLeader ∧
    2 < c.peer.pingCount

/-- The node after a call has judged whether it may vote. -/
def judged (c : SendContext) (type : MessageType) : Peer :=
  if type = .requestvote ∧ maxUnseenTimeToChangeState < c.unseen ∧ 2 < c.peer.pingCount then
    { c.peer with isAbleToVote := false }
  else c.peer

/-- What a call of `SendClbkFunction` can do. -/
inductive SendResult (o : ByteOrder) (c : SendContext) (type : MessageType)
    (sendData : List UInt8) : Sent → Prop where
  | waits (unready : c.peer.okCount < 0) :
      SendResult o c type sendData ⟨{ c.peer with okCount := c.peer.okCount + 1 }, [], false⟩
  | removes (ready : 0 ≤ c.peer.okCount) (asks : asksRemoval c type) :
      SendResult o c type sendData ⟨c.peer, [], true⟩
  | gaveUp (ready : 0 ≤ c.peer.okCount) (keeps : ¬asksRemoval c type)
      (silent : minUnseenTimeToDisplay < c.unseen) (many : 4 ≤ c.peer.pingCount) :
      SendResult o c type sendData ⟨judged c type, [], false⟩
  | probes (ready : 0 ≤ c.peer.okCount) (keeps : ¬asksRemoval c type)
      (silent : minUnseenTimeToDisplay < c.unseen) (few : c.peer.pingCount < 4) :
      SendResult o c type sendData
        ⟨{ judged c type with pingCount := c.peer.pingCount + 1 },
          ReceiveRequest.clbkCmd.code :: (o.bytes type.code ++ sendData), false⟩
  | sends (ready : 0 ≤ c.peer.okCount) (keeps : ¬asksRemoval c type)
      (seen : c.unseen ≤ minUnseenTimeToDisplay) :
      SendResult o c type sendData
        ⟨judged c type, ReceiveRequest.clbkCmd.code :: (o.bytes type.code ++ sendData), false⟩

/-- Judging a node leaves its count of probes alone. -/
theorem pingCount_judged (c : SendContext) (type : MessageType) :
    (judged c type).pingCount = c.peer.pingCount := by
  unfold judged
  split <;> rfl

/-- `SendClbkFunction` drops the message, asks for the removal, or writes the frame and
counts a probe if the node has been silent. -/
theorem sendClbkFunction_result (o : ByteOrder) (c : SendContext) (type : MessageType)
    (sendData : List UInt8) :
    SendResult o c type sendData (sendClbkFunction o c type sendData) := by
  unfold sendClbkFunction
  by_cases unready : c.peer.okCount < 0
  · rw [if_pos unready]
    exact .waits unready
  rw [if_neg unready]
  have ready := Int.not_lt.mp unready
  split
  · exact .removes ready ‹_›
  rename_i asks
  have pings := pingCount_judged c type
  change SendResult o c type sendData
    (if minUnseenTimeToDisplay < c.unseen then
      if (judged c type).pingCount < 4 then ⟨(judged c type).ping, _, false⟩
      else ⟨judged c type, [], false⟩
    else ⟨judged c type, _, false⟩)
  by_cases silent : minUnseenTimeToDisplay < c.unseen
  · rw [if_pos silent, pings]
    by_cases few : c.peer.pingCount < 4
    · have counted : (judged c type).ping =
          { judged c type with pingCount := c.peer.pingCount + 1 } := by
        rw [Peer.ping, if_pos (by omega), pings]
      rw [if_pos few, counted]
      exact .probes ready asks silent few
    · rw [if_neg few]
      exact .gaveUp ready asks silent (Nat.not_lt.mp few)
  · rw [if_neg silent]
    exact .sends ready asks (Int.not_lt.mp silent)

section Actions

variable {o : ByteOrder} {c : SendContext} {type : MessageType} {sendData : List UInt8}
  {sent : Sent} (taken : ℕ)

/-- Nothing is done for a node that does not count as ready. -/
theorem SendResult.actions_eq_nil (result : SendResult o c type sendData sent)
    (unready : c.peer.okCount < 0) : actions taken sent = [] := by
  cases result with
  | waits _ => rfl
  | removes ready _ => omega
  | gaveUp ready _ _ _ => omega
  | probes ready _ _ _ => omega
  | sends ready _ _ => omega

/-- The removal of a node is asked for exactly in the context for it, and never for a node
whose `m_okCount` has become negative. -/
theorem SendResult.removeNode_mem_iff (result : SendResult o c type sendData sent) :
    .removeNode ∈ actions taken sent ↔ 0 ≤ c.peer.okCount ∧ asksRemoval c type := by
  cases result with
  | waits unready => simp [actions, Int.not_le.mpr unready]
  | removes ready asks => simp [actions, ready, asks]
  | gaveUp ready keeps silent many => simp [actions, keeps]
  | probes ready keeps silent few => simp [actions, keeps]
  | sends ready keeps seen => simp [actions, keeps]

/-- A message is written unless the node is silent and has been probed enough; what goes out of it
are the bytes that the socket takes. -/
theorem SendResult.frame_iff (result : SendResult o c type sendData sent)
    (stays : .removeNode ∉ actions taken sent) :
    actions taken sent =
        [.frame ((ReceiveRequest.clbkCmd.code :: (o.bytes type.code ++ sendData)).take taken)] ↔
      0 ≤ c.peer.okCount ∧ (c.unseen ≤ minUnseenTimeToDisplay ∨ c.peer.pingCount < 4) := by
  cases result with
  | waits unready => simp [actions, Int.not_le.mpr unready]
  | removes ready asks => simp [actions] at stays
  | gaveUp ready keeps silent many =>
      simp [actions, Int.not_le.mpr silent, Nat.not_lt.mpr many]
  | probes ready keeps silent few => simp [actions, ready, few]
  | sends ready keeps seen => simp [actions, ready, seen]

end Actions

/-- What the history since the last sign of life says of the node. -/
structure Recalls (trace : List Step) (w : Watch) : Prop where
  unseen : w.now - w.lastSeen = silence trace
  pinged : w.peer.pingCount = probes trace
  few : probes trace ≤ 4
  able : w.peer.isAbleToVote = false ↔ ∃ t ∈ sinceSign trace, takesVote t = true

variable {o : ByteOrder} {trace : List Step} {w : Watch}

/-- A sign of life ends the silence: the history starts over, and the count of probes with
it. -/
theorem recalls_sign {t : Step} (sign : t.event.contact.isSign = true)
    (seen : t.after.lastSeen = t.after.now) (pings : t.after.peer.pingCount = 0)
    (able : t.after.peer.isAbleToVote = true) : Recalls (trace ++ [t]) t.after := by
  have fresh : sinceSign (trace ++ [t]) = [] := by
    rw [sinceSign, List.rtakeWhile_concat_neg]
    simp [sign]
  refine ⟨?_, ?_, ?_, ?_⟩
  · rw [silence, fresh, seen]
    exact Int.sub_self _
  · rw [probes, fresh, pings]
    rfl
  · rw [probes, fresh]
    exact Nat.zero_le 4
  · rw [fresh, able]
    simp

/-- Any other event prolongs it. -/
theorem sinceSign_append {t : Step} (other : t.event.contact.isSign = false) :
    sinceSign (trace ++ [t]) = sinceSign trace ++ [t] := by
  rw [sinceSign, List.rtakeWhile_concat_pos, sinceSign]
  simp [other]

/-- The silence grows with every event that is not a sign of life. -/
theorem silence_append {t : Step} (other : t.event.contact.isSign = false) :
    silence (trace ++ [t]) = silence trace + t.event.elapsed := by
  simp [silence, sinceSign_append other]

/-- Probes are counted event by event. -/
theorem probes_append {t : Step} (other : t.event.contact.isSign = false) :
    probes (trace ++ [t]) = probes trace + if isProbe t then 1 else 0 := by
  simp [probes, sinceSign_append other, List.countP_append, List.countP_cons]

/-- An event that is not a sign of life adds to the silence, and to the probes if it is one. -/
theorem Recalls.append {t : Step} (recalls : Recalls trace t.before)
    (other : t.event.contact.isSign = false)
    (clock : t.after.now = t.before.now + t.event.elapsed)
    (seen : t.after.lastSeen = t.before.lastSeen)
    (pings : t.after.peer.pingCount = t.before.peer.pingCount + if isProbe t then 1 else 0)
    (few : t.after.peer.pingCount ≤ 4)
    (able : t.after.peer.isAbleToVote = (t.before.peer.isAbleToVote && !takesVote t)) :
    Recalls (trace ++ [t]) t.after := by
  have unseen := recalls.unseen
  have count : probes (trace ++ [t]) = t.after.peer.pingCount := by
    rw [probes_append other, pings, recalls.pinged]
  refine ⟨?_, count.symm, count ▸ few, ?_⟩
  · rw [silence_append other]
    push_cast
    omega
  · rw [sinceSign_append other, able, Bool.and_eq_false_iff, recalls.able]
    simp [or_and_right, exists_or]

/-- A node that was just constructed has a history of nothing. -/
theorem recalls_new (time : Int) : Recalls [] (new time) :=
  ⟨Int.sub_self time, rfl, Nat.zero_le 4, by simp [new, Peer.new, sinceSign]⟩

/-- When a message takes the vote of its node away. -/
theorem takesVote_send (w after : Watch) (elapsed : ℕ) (isLeader : Bool) (type : MessageType)
    (sendData : List UInt8) (taken : ℕ) (emitted : List WatchAction) :
    takesVote ⟨w, ⟨elapsed, .send isLeader type sendData taken⟩, after, emitted⟩ =
      decide (0 ≤ w.peer.okCount ∧ type = .requestvote ∧
        maxUnseenTimeToChangeState < after.now - after.lastSeen ∧ 2 < w.peer.pingCount) := by
  cases type <;> simp [takesVote]

/-- A vote that was taken away is not given back by a message. -/
theorem isAbleToVote_judged (c : SendContext) (type : MessageType) :
    (judged c type).isAbleToVote = (c.peer.isAbleToVote &&
      !decide (type = .requestvote ∧ maxUnseenTimeToChangeState < c.unseen ∧
        2 < c.peer.pingCount)) := by
  unfold judged
  split <;> simp [*]

/-- A message to a node that has given no sign of life since: the cases of
`SendClbkFunction` against the history, which counts the frames that were written as probes. -/
theorem Recalls.sent (recalls : Recalls trace w) {elapsed : ℕ} {isLeader : Bool}
    {type : MessageType} {sendData : List UInt8} (taken : ℕ) {sent : Sent}
    (result : SendResult o ⟨w.peer, w.now + elapsed - w.lastSeen, isLeader⟩ type sendData sent) :
    Recalls
      (trace ++ [⟨w, ⟨elapsed, .send isLeader type sendData taken⟩,
        ⟨sent.peer, w.lastSeen, w.now + elapsed⟩, actions taken sent⟩])
      ⟨sent.peer, w.lastSeen, w.now + elapsed⟩ := by
  have pinged : w.peer.pingCount ≤ 4 := recalls.pinged ▸ recalls.few
  refine recalls.append (t := ⟨w, ⟨elapsed, .send isLeader type sendData taken⟩,
    ⟨sent.peer, w.lastSeen, w.now + elapsed⟩, actions taken sent⟩) rfl rfl rfl ?_ ?_ ?_
  · cases result with
    | waits unready => simp [isProbe, actions]
    | removes ready asks => simp [isProbe, actions]
    | gaveUp ready keeps silent many => simp [isProbe, actions, pingCount_judged]
    | probes ready keeps silent few => simp [isProbe, actions, silent]
    | sends ready keeps seen =>
        simp [isProbe, actions, pingCount_judged, Int.not_lt.mpr seen]
  · cases result with
    | waits unready => exact pinged
    | removes ready asks => exact pinged
    | gaveUp ready keeps silent many => exact (pingCount_judged _ type).trans_le pinged
    | probes ready keeps silent few => exact few
    | sends ready keeps seen => exact (pingCount_judged _ type).trans_le pinged
  · rw [takesVote_send]
    cases result with
    | waits unready => simp [Int.not_le.mpr unready]
    | removes ready asks => simp [asks.1]
    | gaveUp ready keeps silent many => simp [isAbleToVote_judged, ready]
    | probes ready keeps silent few => simp [isAbleToVote_judged, ready]
    | sends ready keeps seen => simp [isAbleToVote_judged, ready]

/-- After every run the node shows the history since its last sign of life, by induction on
the run. -/
theorem recalls_of_run {time : Int} (run : (machine o).Run (new time) trace w) :
    Recalls trace w := by
  induction run with
  | nil => exact recalls_new time
  | @snoc trace w event effect earlier stepped ih =>
      obtain rfl := Option.some.inj stepped
      obtain ⟨elapsed, contact⟩ := event
      cases contact with
      | responseOk => exact recalls_sign rfl rfl rfl rfl
      | ping => exact recalls_sign rfl rfl rfl rfl
      | setUnableToVote =>
          refine ih.append (t := ⟨w, ⟨elapsed, .setUnableToVote⟩, _, _⟩) rfl rfl rfl ?_ ?_ ?_
          · simp [isProbe, handle]
          · exact ih.pinged ▸ ih.few
          · simp [takesVote, handle]
      | send isLeader type sendData taken =>
          exact ih.sent taken (sendClbkFunction_result o _ type sendData)

/-- The events of the node in a run. -/
def peerEvents (trace : List Step) : List PeerEvent :=
  trace.filterMap fun t => t.event.contact.peerEvent? (t.after.now - t.before.lastSeen)

/-- The number of `response::ok` in a run. -/
def responses (trace : List Step) : ℕ :=
  trace.countP fun t => t.event.contact = .responseOk

/-- The counts of a node go with the events of the node alone: every run with the clock is a run of
these events that ends with the same counts. -/
theorem exists_peer_run {time : Int} (run : (machine o).Run (new time) trace w) :
    ∃ (moves : List Peer.Step) (peer : Peer), (Peer.machine o).Run .new moves peer ∧
      moves.map Transition.event = peerEvents trace ∧ w.peer.SameCounts peer := by
  induction run with
  | nil => exact ⟨[], .new, .nil, rfl, rfl, rfl⟩
  | @snoc trace w event effect earlier stepped ih =>
      obtain rfl := Option.some.inj stepped
      obtain ⟨moves, peer, reached, events, same⟩ := ih
      obtain ⟨elapsed, contact⟩ := event
      rw [peerEvents, List.filterMap_append, ← peerEvents, ← events]
      cases contact with
      | setUnableToVote => exact ⟨moves, peer, reached, (List.append_nil _).symm, same⟩
      | responseOk =>
          exact ⟨_, _, reached.snoc rfl, List.map_append, same.handle (o := o) .responseOk⟩
      | ping => exact ⟨_, _, reached.snoc rfl, List.map_append, same.handle (o := o) .ping⟩
      | send isLeader type sendData taken =>
          exact ⟨_, _, reached.snoc rfl, List.map_append, same.handle (o := o)
            (.send (w.now + elapsed - w.lastSeen) isLeader type sendData)⟩

/-- The node counts as ready from its first sign of life to its 511th response, after which
its counter of ten bits is negative. -/
theorem ready_of_seen {time : Int} (run : (machine o).Run (new time) trace w)
    (seen : ∃ t ∈ trace, t.event.contact.isSign = true) (few : responses trace ≤ 511) :
    0 ≤ w.peer.okCount := by
  obtain ⟨moves, peer, reached, events, same⟩ := exists_peer_run run
  have counted : Peer.responses moves = responses trace := by
    calc Peer.responses moves = (moves.map Transition.event).countP (· = .responseOk) := by
          rw [List.countP_map]
          rfl
      _ = responses trace := by
          rw [events, peerEvents, List.countP_filterMap, responses]
          congr 1
          funext t
          cases t.event.contact <;> simp [Contact.peerEvent?]
  have pinged : ∃ t ∈ moves, t.event.isPing = true := by
    obtain ⟨t, member, sign⟩ := seen
    obtain ⟨event, ping, known⟩ : ∃ event : PeerEvent, event.isPing = true ∧
        t.event.contact.peerEvent? (t.after.now - t.before.lastSeen) = some event := by
      cases contact : t.event.contact with
      | responseOk => exact ⟨_, rfl, rfl⟩
      | ping => exact ⟨_, rfl, rfl⟩
      | setUnableToVote =>
          rw [contact] at sign
          cases sign
      | send isLeader type sendData taken =>
          rw [contact] at sign
          cases sign
    have listed : event ∈ moves.map Transition.event := by
      rw [events]
      exact List.mem_filterMap.mpr ⟨t, member, known⟩
    obtain ⟨move, moved, rfl⟩ := List.mem_map.mp listed
    exact ⟨move, moved, ping⟩
  rw [same.1]
  exact Peer.okCount_nonneg_of_seen reached pinged (counted.trans_le few)

/-- In every run of a node. A node that has given a sign of life and at most 511 responses counts
as ready, and nothing is done for one that does not. What is done with a message to a node that
counts as ready depends on the history since its last sign of life alone. The node is asked to be
removed exactly when a leader should send it AppendEntries after twenty seconds of silence and
three probes; unless that is so, the message is written exactly if the silence has not lasted six
seconds or has seen fewer than four probes, and then the bytes that the socket takes go out. There
are never more than four probes, whether or not they go out, and the vote of the node counts unless
it was taken away in the silence. -/
theorem removal_iff_unanswered {time : Int} {past rest : List Step} {t : Step}
    (run : (machine o).Run (new time) (past ++ t :: rest) w) :
    ((∃ u ∈ past, u.event.contact.isSign = true) → responses past ≤ 511 →
      0 ≤ t.before.peer.okCount) ∧
    (t.before.peer.okCount < 0 → t.emitted = []) ∧
    (.removeNode ∈ t.emitted ↔
      (∃ sendData taken, t.event.contact = .send true .appendentries sendData taken) ∧
        0 ≤ t.before.peer.okCount ∧ 20000 < silence past + t.event.elapsed ∧ 3 ≤ probes past) ∧
    (∀ isLeader type sendData taken, t.event.contact = .send isLeader type sendData taken →
      .removeNode ∉ t.emitted →
      (t.emitted =
          [.frame ((ReceiveRequest.clbkCmd.code :: (o.bytes type.code ++ sendData)).take taken)] ↔
        0 ≤ t.before.peer.okCount ∧
          (silence past + t.event.elapsed ≤ 6000 ∨ probes past < 4))) ∧
    probes (past ++ [t]) ≤ 4 ∧
    (t.after.peer.isAbleToVote = false ↔ ∃ u ∈ sinceSign (past ++ [t]), takesVote u = true) := by
  obtain ⟨earlier, stepped⟩ := run.at_split
  have before := recalls_of_run earlier
  have after : Recalls (past ++ [t]) t.after := recalls_of_run (earlier.snoc stepped)
  have ready := ready_of_seen earlier
  obtain ⟨u, ⟨elapsed, contact⟩, u', emitted⟩ := t
  have written : (handle o ⟨elapsed, contact⟩ u).emitted = emitted :=
    congrArg Effect.emitted (Option.some.inj stepped)
  have unseen : u.now + elapsed - u.lastSeen = silence past + elapsed := by
    have silent : u.now - u.lastSeen = silence past := before.unseen
    omega
  have result (isLeader : Bool) (type : MessageType) (sendData : List UInt8) :=
    sendClbkFunction_result o ⟨u.peer, u.now + elapsed - u.lastSeen, isLeader⟩ type sendData
  simp only at before ready ⊢
  refine ⟨ready, ?_, ?_, ?_, after.few, after.able⟩
  · intro unready
    rw [← written]
    cases contact with
    | send isLeader type sendData taken =>
        exact (result isLeader type sendData).actions_eq_nil taken unready
    | _ => rfl
  · rw [← written]
    cases contact with
    | send isLeader type sendData taken =>
        refine ((result isLeader type sendData).removeNode_mem_iff taken).trans ?_
        simp only [asksRemoval, before.pinged, unseen, maxUnseenTimeToChangeState,
          Contact.send.injEq, exists_and_left, exists_eq', and_true]
        constructor
        · rintro ⟨ready, isAppend, silent, leader, probed⟩
          exact ⟨⟨leader, isAppend⟩, ready, by omega, probed⟩
        · rintro ⟨⟨leader, isAppend⟩, ready, silent, probed⟩
          exact ⟨ready, isAppend, by omega, leader, probed⟩
    | _ => simp [handle]
  · rintro isLeader type sendData taken rfl stays
    rw [← written] at stays ⊢
    refine ((result isLeader type sendData).frame_iff taken stays).trans ?_
    simp only [before.pinged, unseen, minUnseenTimeToDisplay]
    refine and_congr_right fun _ => or_congr_left ?_
    omega

/-- A node that answers and is then sent three AppendEntries messages, seven seconds apart, the
second of which does not go out. -/
def unanswered : List WatchEvent :=
  [⟨0, .responseOk⟩, ⟨7000, .send true .appendentries [] 5⟩,
    ⟨7000, .send true .appendentries [] 0⟩, ⟨7000, .send true .appendentries [] 5⟩]

/-- Instead of a fourth message its removal is asked for. -/
theorem removal_of_unanswered :
    .removeNode ∈ ((machine .little).transitionOf (stateOf (machine .little) (new 0) unanswered)
      ⟨7000, .send true .appendentries [] 5⟩ rfl).emitted :=
  (removal_iff_unanswered ((run_traceOf (machine .little) (new 0) unanswered rfl).snoc_transitionOf
    ⟨7000, .send true .appendentries [] 5⟩ rfl)).2.2.1.mpr
      ⟨⟨[], 5, rfl⟩, by decide, by decide, by decide⟩

end Watch

end Tcp

end CppRaft
