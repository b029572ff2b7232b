import CppRaft.Server.Handlers
import CppRaft.Tcp.Receive

/-!
# Raft messages on the wire

`SendClbkFunction` writes a frame for every payload it is given: a request byte, the
message type and the payload. The receiver reads one frame for every message. The
two agree on where a message ends except in two cases: a RequestVote that arrives
early in the receiver's election timeout, whose payload stays on the socket, and an
AppendEntries message with entries, which is sent as two frames and read as one.
-/

namespace CppRaft

namespace Tcp

open Machine

/-- The fields of a node that `SendClbkFunction` reads and writes. -/
structure Peer where
  okCount : Int
  pingCount : ℕ
  isAbleToVote : Bool
  deriving DecidableEq, Repr

/-- What a call of `SendClbkFunction` finds: the node, the time since it was last seen, and
whether the own server is leader. -/
structure SendContext where
  peer : Peer
  unseen : Int
  isLeader : Bool
  deriving DecidableEq, Repr

/-- What the call leaves: the node, the bytes it wrote, and whether it asked a worker to remove
the node. -/
structure Sent where
  peer : Peer
  written : List UInt8
  removeNode : Bool
  deriving DecidableEq, Repr

/-- `MIN_UNSEEN_TIME_TO_DISPLAY`. -/
def minUnseenTimeToDisplay : Int := 6000

/-- `MAX_UNSEEN_TIME_TO_CHANGE_STATE`. -/
def maxUnseenTimeToChangeState : Int := 20000

/-- `RaftNode2::ping`. -/
def Peer.ping (peer : Peer) : Peer :=
  if peer.pingCount < 8 then { peer with pingCount := peer.pingCount + 1 } else peer

/-- `SendClbkFunction` on an open socket that takes all bytes. -/
def sendClbkFunction (o : ByteOrder) (c : SendContext) (type : MessageType)
    (sendData : List UInt8) : Sent :=
  if c.peer.okCount < 0 then
    ⟨{ c.peer with okCount := c.peer.okCount + 1 }, [], false⟩
  else if type = .appendentries ∧ maxUnseenTimeToChangeState < c.unseen ∧ c.isLeader ∧
      2 < c.peer.pingCount then
    ⟨c.peer, [], true⟩
  else
    let peer :=
      if type = .requestvote ∧ maxUnseenTimeToChangeState < c.unseen ∧ 2 < c.peer.pingCount then
        { c.peer with isAbleToVote := false }
      else c.peer
    let frame := ReceiveRequest.clbkCmd.code :: (o.bytes type.code ++ sendData)
    if minUnseenTimeToDisplay < c.unseen then
      if peer.pingCount < 4 then ⟨peer.ping, frame, false⟩ else ⟨peer, [], false⟩
    else ⟨peer, frame, false⟩

/-- The calls of `SendClbkFunction` that write a frame. -/
def SendContext.writes (c : SendContext) (type : MessageType) : Bool :=
  decide (0 ≤ c.peer.okCount ∧
    ¬(type = .appendentries ∧ maxUnseenTimeToChangeState < c.unseen ∧ c.isLeader ∧
      2 < c.peer.pingCount) ∧
    (c.unseen ≤ minUnseenTimeToDisplay ∨ c.peer.pingCount < 4))

/-- A call writes the whole frame or nothing: the request byte, the type and the data. -/
theorem written_sendClbkFunction (o : ByteOrder) (c : SendContext) (type : MessageType)
    (sendData : List UInt8) :
    (sendClbkFunction o c type sendData).written =
      if c.writes type then ReceiveRequest.clbkCmd.code :: (o.bytes type.code ++ sendData)
      else [] := by
  unfold sendClbkFunction SendContext.writes
  by_cases waiting : c.peer.okCount < 0
  · simp [waiting, not_le.mpr waiting]
  by_cases removed : type = .appendentries ∧ maxUnseenTimeToChangeState < c.unseen ∧ c.isLeader ∧
      2 < c.peer.pingCount
  · simp [waiting, removed]
  by_cases silent : minUnseenTimeToDisplay < c.unseen <;>
    by_cases few : c.peer.pingCount < 4 <;>
    by_cases unable : type = .requestvote ∧ maxUnseenTimeToChangeState < c.unseen ∧
      2 < c.peer.pingCount <;>
    simp [waiting, removed, silent, few, unable]

/-- How the entries of a message stand in the memory of the sender. Addresses and padding are
arbitrary. -/
structure EntryLayout (o : ByteOrder) where
  image : ℕ → MsgEntry → Block sizeofMsgEntry
  id : ∀ i entry, o.field (image i entry).bytes 0 = entry.id
  len : ∀ i entry, o.field (image i entry).bytes 4 = UInt32.ofNat entry.data.length

/-- The type and the bytes that the server passes to the `send` callback. -/
def payload {o : ByteOrder} (layout : EntryLayout o) : Message → MessageType × List UInt8
  | .requestvote vr =>
      (.requestvote, o.image [intWord vr.term, intWord vr.candidateId, intWord vr.lastLogIdx,
        intWord vr.lastLogTerm])
  | .requestvoteResponse r =>
      (.requestvoteResponse, o.image [intWord r.term, intWord r.voteGranted])
  | .appendentries ae =>
      (.appendentries, o.image [intWord ae.term, intWord ae.prevLogIdx, intWord ae.prevLogTerm,
        intWord ae.leaderCommit, intWord ae.entries.length, 0])
  | .appendentriesPayload entries => (.appendentries, Block.flatten (entries.mapIdx layout.image))
  | .appendentriesResponse r =>
      (.appendentriesResponse, o.image [intWord r.term, intWord r.success, intWord r.currentIdx,
        intWord r.firstIdx])
  | .entryResponse r => (.entryResponse, o.image [r.id, intWord r.wasCommitted])

/-- The messages between nodes. -/
inductive RaftMessage where
  | requestvote (vr : MsgRequestvote)
  | requestvoteResponse (r : MsgRequestvoteResponse)
  | appendentries (ae : MsgAppendEntries)
  | appendentriesResponse (r : MsgAppendentriesResponse)
  deriving DecidableEq, Repr

/-- The calls of the `send` callback for a message. -/
def RaftMessage.calls : RaftMessage → List Message
  | requestvote vr => [.requestvote vr]
  | requestvoteResponse r => [.requestvoteResponse r]
  | appendentries ae =>
      .appendentries ae ::
        if ae.entries.length ≠ 0 then [.appendentriesPayload ae.entries] else []
  | appendentriesResponse r => [.appendentriesResponse r]

/-- `send_appendentries` makes the calls of an AppendEntries message. -/
theorem emitted_sendAppendentries {Node : Type} [DecidableEq Node] (node : Node)
    (s : RaftServer Node) (sends : s.callbacks.send) :
    (s.sendAppendentries node).emitted =
      (RaftMessage.appendentries (.new s.currentTerm 0 (s.table.record node).nextIdx 0
        s.leaderCommit)).calls.map (Action.send node) := by
  simp [RaftServer.sendAppendentries, sends, RaftMessage.calls, MsgAppendEntries.new]

/-- A message on its way: what each of its calls finds at the sender, and the receiver at the
time it is read. -/
structure Sending (o : ByteOrder) where
  message : RaftMessage
  layout : EntryLayout o
  first : SendContext
  second : SendContext
  receiver : Receiver

namespace Sending

variable {o : ByteOrder}

/-- The bytes that one call writes. -/
def written (s : Sending o) (c : SendContext) (msg : Message) : List UInt8 :=
  (sendClbkFunction o c (payload s.layout msg).1 (payload s.layout msg).2).written

/-- The bytes that the sender writes for the message. -/
def frame (s : Sending o) : List UInt8 :=
  (s.message.calls.zip [s.first, s.second]).flatMap fun call => s.written call.2 call.1

/-- The messages that the receiver reads to their end: a RequestVote in the second half of the
election timeout, an AppendEntries message without entries, every response, and what is not
written. Where only the entries of a message are written, the length of the first entry stands
in the place of the number of entries. -/
def InStep (s : Sending o) : Prop :=
  match s.message with
  | .requestvote _ =>
      s.first.writes .requestvote →
        s.receiver.electionTimeout.tdiv 2 ≤ s.receiver.timeoutElapsed
  | .appendentries ae =>
      ∀ entry others, ae.entries = entry :: others →
        ¬s.first.writes .appendentries ∧
          (s.second.writes .appendentries →
            entryBytes (wordInt (UInt32.ofNat entry.data.length)) =
                others.length * sizeofMsgEntry ∧
              (others = [] ∨ 0 < wordInt (UInt32.ofNat entry.data.length)))
  | _ => True

end Sending

/-- Reading a frame is reading its payload in the case of its type. -/
theorem leaves_frame (o : ByteOrder) (r : Receiver) (type : MessageType)
    (sendData input unread : List UInt8) :
    (receiveFromSocketAndInform o r).Leaves
        (ReceiveRequest.clbkCmd.code :: (o.bytes type.code ++ sendData) ++ input) unread ↔
      (seedSwitch o r (some type)).Leaves (sendData ++ input) unread := by
  rw [List.cons_append, List.append_assoc, Session.Leaves, runOn_receive, ← Session.Leaves,
    handleReceiveFromNodeBeforeLockRcvContext, Session.leaves_bind_done, Session.Leaves,
    runOn_handleSeedClbk, Session.Leaves]

/-- A read of fixed size leaves the rest when the payload has that size. -/
theorem leaves_fixed {α : Type} {n : ℕ} (result : Block n → α) {sendData : List UInt8}
    (sized : sendData.length = n) (rest : List UInt8) :
    (Session.read n fun block => .done (result block)).Leaves (sendData ++ rest) rest := by
  rw [Session.leaves_read_done, List.length_append, sized]
  exact ⟨Nat.le_add_right _ _, List.drop_left' sized⟩

/-- The entries are read to their end when their number says so, and otherwise the receiver
stops too early or reads into the next message. -/
theorem leaves_readEntries_iff (nEntries : Int) (extra rest : List UInt8) :
    (readEntries nEntries).Leaves (extra ++ rest) rest ↔
      entryBytes nEntries = extra.length ∧
        extra.length ≤ maxNumOfAppendEntriesLog * sizeofMsgEntry ∧
        (extra = [] ∨ 0 < nEntries) := by
  unfold readEntries
  by_cases none : entryBytes nEntries = 0
  · rw [if_pos none, Session.leaves_done, none, List.append_left_eq_self]
    constructor
    · rintro rfl
      exact ⟨rfl, Nat.zero_le _, Or.inl rfl⟩
    · rintro ⟨same, -, -⟩
      exact List.eq_nil_of_length_eq_zero (by omega)
  · rw [if_neg none]
    by_cases fits : 0 < nEntries ∧ 0 < entryBytes nEntries ∧
        entryBytes nEntries ≤ maxNumOfAppendEntriesLog * sizeofMsgEntry
    · rw [if_pos fits, Session.leaves_read_done]
      obtain ⟨positive, some, bounded⟩ := fits
      constructor
      · rintro ⟨enough, left⟩
        have lengths := congrArg List.length left
        rw [List.length_drop, List.length_append] at lengths
        rw [List.length_append] at enough
        have same : entryBytes nEntries = extra.length := by omega
        exact ⟨same, by omega, Or.inr positive⟩
      · rintro ⟨same, -, -⟩
        have size : (entryBytes nEntries).toNat = extra.length := by omega
        rw [size, List.length_append]
        exact ⟨Nat.le_add_right _ _, List.drop_left⟩
    · rw [if_neg fits]
      refine iff_of_false (Session.not_leaves_undefined _ _) ?_
      rintro ⟨same, bounded, empty | positive⟩
      · rw [empty] at same
        exact none same
      · exact fits ⟨positive, by omega, by omega⟩

/-- An AppendEntries header is followed by as many bytes as its size field says. -/
theorem leaves_appendentries_iff (o : ByteOrder) (r : Receiver)
    (header : Block sizeOfInitialRcvOfMsgApp) (extra rest : List UInt8) :
    (seedSwitch o r (some .appendentries)).Leaves (header.bytes ++ (extra ++ rest)) rest ↔
      entryBytes (intField o header.bytes 4) = extra.length ∧
        extra.length ≤ maxNumOfAppendEntriesLog * sizeofMsgEntry ∧
        (extra = [] ∨ 0 < intField o header.bytes 4) := by
  have size : (AppendHeader.ofImage o header.bytes).nSize = intField o header.bytes 4 := rfl
  rw [seedSwitch, Session.leaves_read, ← leaves_readEntries_iff _ extra rest]
  by_cases some : intField o header.bytes 4 = 0
  · have none : readEntries 0 = .done [] := rfl
    rw [if_neg (not_not.mpr (size.trans some)), some, none, Session.leaves_done,
      Session.leaves_done]
  · rw [if_pos (size ▸ some), Session.leaves_bind_done, size]

namespace Sending

variable {o : ByteOrder} (s : Sending o)

/-- The receiver has read a message when it has read all of it and nothing more. -/
def Aligned (rest : List UInt8) : Prop :=
  s.frame = [] ∨ (receiveFromSocketAndInform o s.receiver).Leaves (s.frame ++ rest) rest

/-- A message that is sent in one call. -/
theorem aligned_single {msg : Message} (single : s.message.calls = [msg]) (rest : List UInt8) :
    s.Aligned rest ↔
      (s.first.writes (payload s.layout msg).1 →
        (seedSwitch o s.receiver (some (payload s.layout msg).1)).Leaves
          ((payload s.layout msg).2 ++ rest) rest) := by
  have frame : s.frame = s.written s.first msg := by simp [frame, single]
  rw [Aligned, frame, written, written_sendClbkFunction]
  by_cases writes : s.first.writes (payload s.layout msg).1
  · simp only [writes, ↓reduceIte, List.cons_ne_nil, false_or, forall_const]
    exact leaves_frame o s.receiver _ _ rest rest
  · simp [writes]

/-- The header of an AppendEntries message. -/
def header (ae : MsgAppendEntries) : Block sizeOfInitialRcvOfMsgApp :=
  ⟨(payload s.layout (.appendentries ae)).2, o.length_image _⟩

/-- The header of a message has the number of its entries at word four. -/
theorem intField_header (ae : MsgAppendEntries) :
    intField o (s.header ae).bytes 4 = ae.entries.length := by
  have fits : IsInt ae.entries.length := by
    have bounded := ae.bounded
    rw [maxNumOfAppendEntriesLog] at bounded
    constructor <;> omega
  have image : (s.header ae).bytes = o.image [intWord ae.term, intWord ae.prevLogIdx,
      intWord ae.prevLogTerm, intWord ae.leaderCommit, intWord ae.entries.length, 0] := rfl
  rw [intField, image, o.field_image _ 4 (by simp)]
  exact wordInt_intWord fits

/-- The receiver expects as many bytes as the entries of the message have. -/
theorem entryBytes_header (ae : MsgAppendEntries) :
    entryBytes (intField o (s.header ae).bytes 4) = ae.entries.length * sizeofMsgEntry := by
  have bounded := ae.bounded
  rw [maxNumOfAppendEntriesLog] at bounded
  rw [intField_header, entryBytes, sizeofMsgEntry]
  refine wordInt_intWord ?_
  constructor <;> omega

/-- A message without entries is one frame and is read as one. -/
theorem aligned_appendentries_nil {ae : MsgAppendEntries}
    (message : s.message = .appendentries ae) (none : ae.entries = []) (rest : List UInt8) :
    s.Aligned rest := by
  have single : s.message.calls = [.appendentries ae] := by
    simp [message, RaftMessage.calls, none]
  refine (s.aligned_single single rest).mpr fun _ => ?_
  have read := leaves_appendentries_iff o s.receiver (s.header ae) [] rest
  rw [List.nil_append] at read
  refine read.mpr ⟨?_, Nat.zero_le _, Or.inl rfl⟩
  rw [entryBytes_header, none]
  rfl

/-- The entries of a message as they are written. -/
theorem length_payload (entries : List MsgEntry) :
    (payload s.layout (.appendentriesPayload entries)).2.length =
      entries.length * sizeofMsgEntry := by
  rw [payload, Block.length_flatten, List.length_mapIdx]

/-- What the second call of the callback writes: a frame of its own, with the entries where
the receiver expects a header. -/
theorem written_payload (entries : List MsgEntry) :
    s.written s.second (.appendentriesPayload entries) =
      if s.second.writes .appendentries then
        ReceiveRequest.clbkCmd.code :: (o.bytes MessageType.appendentries.code ++
          (payload s.layout (.appendentriesPayload entries)).2)
      else [] :=
  written_sendClbkFunction ..

/-- A header that announces entries is followed by a second frame or by nothing, not by the
entries alone. -/
theorem not_leaves_header {ae : MsgAppendEntries} (announces : ae.entries ≠ [])
    (rest : List UInt8) :
    ¬(seedSwitch o s.receiver (some .appendentries)).Leaves
      ((s.header ae).bytes ++ (s.written s.second (.appendentriesPayload ae.entries) ++ rest))
      rest := by
  have count := List.length_pos_iff.mpr announces
  intro left
  rw [leaves_appendentries_iff, entryBytes_header, written_payload] at left
  have announced := left.1
  split at announced
  · rw [List.length_cons, List.length_append, o.length_bytes, length_payload] at announced
    push_cast at announced
    omega
  · rw [List.length_nil, sizeofMsgEntry] at announced
    omega

/-- Entries without a header: the first one is read as a header, with the length of its data
where the number of entries is expected. -/
theorem leaves_payload_iff {ae : MsgAppendEntries} {entry : MsgEntry} {others : List MsgEntry}
    (entries : ae.entries = entry :: others) (rest : List UInt8) :
    (seedSwitch o s.receiver (some .appendentries)).Leaves
        ((payload s.layout (.appendentriesPayload ae.entries)).2 ++ rest) rest ↔
      entryBytes (wordInt (UInt32.ofNat entry.data.length)) = others.length * sizeofMsgEntry ∧
        (others = [] ∨ 0 < wordInt (UInt32.ofNat entry.data.length)) := by
  let front : Block sizeOfInitialRcvOfMsgApp :=
    ⟨(s.layout.image 0 entry).bytes, (s.layout.image 0 entry).sized⟩
  let others' := Block.flatten (others.mapIdx fun i => s.layout.image (i + 1))
  have split : (payload s.layout (.appendentriesPayload ae.entries)).2 =
      front.bytes ++ others' := by
    rw [entries, payload, List.mapIdx_cons]
    rfl
  have size : others'.length = others.length * sizeofMsgEntry := by
    rw [Block.length_flatten, List.length_mapIdx]
  have bounded : others'.length ≤ maxNumOfAppendEntriesLog * sizeofMsgEntry := by
    have bounded := ae.bounded
    rw [entries, List.length_cons] at bounded
    rw [size]
    exact Nat.mul_le_mul_right _ (Nat.le_of_succ_le bounded)
  have empty : others' = [] ↔ others = [] := by
    rw [← List.length_eq_zero_iff, size, ← List.length_eq_zero_iff, sizeofMsgEntry]
    omega
  have length : intField o front.bytes 4 = wordInt (UInt32.ofNat entry.data.length) :=
    congrArg wordInt (s.layout.len 0 entry)
  rw [split, List.append_assoc, leaves_appendentries_iff, length, empty, and_iff_right bounded,
    size, Int.natCast_mul]

/-- A message with entries is only read to its end if its first frame is dropped and the
lengths in the second happen to agree. -/
theorem aligned_appendentries_cons {ae : MsgAppendEntries} {entry : MsgEntry}
    {others : List MsgEntry} (message : s.message = .appendentries ae)
    (entries : ae.entries = entry :: others) (rest : List UInt8) :
    s.Aligned rest ↔
      ¬s.first.writes .appendentries ∧
        (s.second.writes .appendentries →
          entryBytes (wordInt (UInt32.ofNat entry.data.length)) =
              others.length * sizeofMsgEntry ∧
            (others = [] ∨ 0 < wordInt (UInt32.ofNat entry.data.length))) := by
  have frame : s.frame = s.written s.first (.appendentries ae) ++
      s.written s.second (.appendentriesPayload ae.entries) := by
    simp [Sending.frame, message, RaftMessage.calls, entries]
  rw [Aligned, frame]
  by_cases first : s.first.writes .appendentries
  · have header : s.written s.first (.appendentries ae) =
        ReceiveRequest.clbkCmd.code :: (o.bytes MessageType.appendentries.code ++
          (s.header ae).bytes) := (written_sendClbkFunction ..).trans (if_pos first)
    refine iff_of_false ?_ fun kept => kept.1 first
    rw [header, List.cons_append, List.cons_append]
    rintro (empty | left)
    · cases empty
    · rw [← List.cons_append, ← List.cons_append, List.append_assoc, leaves_frame] at left
      exact s.not_leaves_header (entries ▸ List.cons_ne_nil _ _) rest left
  · have header : s.written s.first (.appendentries ae) = [] :=
      (written_sendClbkFunction ..).trans (if_neg first)
    rw [header, List.nil_append, written_payload]
    by_cases writes : s.second.writes .appendentries
    · rw [if_pos writes]
      simp only [List.cons_ne_nil, false_or]
      rw [leaves_frame, s.leaves_payload_iff entries]
      exact ⟨fun kept => ⟨first, fun _ => kept⟩, fun kept => kept.2 writes⟩
    · rw [if_neg writes]
      exact iff_of_true (Or.inl rfl) ⟨first, fun written => absurd written writes⟩

/-- A message is read to its end in exactly these cases, whatever follows it. Everything but
AppendEntries with entries is one frame. -/
theorem aligned_iff (rest : List UInt8) : s.Aligned rest ↔ s.InStep := by
  unfold InStep
  cases message : s.message with
  | requestvote vr =>
      have single : s.message.calls = [.requestvote vr] := by rw [message]; rfl
      have sized : (payload s.layout (.requestvote vr)).2.length = sizeofMsgRequestvote :=
        o.length_image _
      rw [s.aligned_single single]
      refine imp_congr_right fun _ => ?_
      by_cases late : s.receiver.electionTimeout.tdiv 2 ≤ s.receiver.timeoutElapsed
      · have read : seedSwitch o s.receiver (some .requestvote) =
            .read sizeofMsgRequestvote fun block =>
              .done (some (.requestvote (MsgRequestvote.ofImage o block.bytes))) := if_pos late
        exact iff_of_true (read ▸ leaves_fixed _ sized rest) late
      · have skip : seedSwitch o s.receiver (some .requestvote) = .done none := if_neg late
        refine iff_of_false (fun left => ?_) late
        have all : (payload s.layout (.requestvote vr)).2 ++ rest = rest :=
          (Session.leaves_done _ _ _).mp (skip ▸ left)
        rw [List.append_left_eq_self.mp all] at sized
        cases sized
  | requestvoteResponse r =>
      have single : s.message.calls = [.requestvoteResponse r] := by rw [message]; rfl
      have sized : (payload s.layout (.requestvoteResponse r)).2.length =
        sizeofMsgRequestvoteResponse := o.length_image _
      exact iff_of_true ((s.aligned_single single rest).mpr fun _ => leaves_fixed _ sized rest)
        trivial
  | appendentriesResponse r =>
      have single : s.message.calls = [.appendentriesResponse r] := by rw [message]; rfl
      have sized : (payload s.layout (.appendentriesResponse r)).2.length =
        sizeofMsgAppendentriesResponse := o.length_image _
      exact iff_of_true ((s.aligned_single single rest).mpr fun _ => leaves_fixed _ sized rest)
        trivial
  | appendentries ae =>
      cases entries : ae.entries with
      | nil =>
          refine iff_of_true (s.aligned_appendentries_nil message entries rest) ?_
          intro entry others some
          cases entries.symm.trans some
      | cons entry others =>
          rw [s.aligned_appendentries_cons message entries]
          constructor
          · intro kept entry' others' same
            cases entries.symm.trans same
            exact kept
          · intro kept
            exact kept entry others entries

end Sending

/-- What is on the socket when these messages are sent before the bytes `tail`. -/
def stream {o : ByteOrder} (sendings : List (Sending o)) (tail : List UInt8) : List UInt8 :=
  sendings.flatMap Sending.frame ++ tail

/-- Every message is read to its end, so that the next one is read from its beginning. -/
def AllAligned {o : ByteOrder} : List (Sending o) → List UInt8 → Prop
  | [], _ => True
  | s :: later, tail => s.Aligned (stream later tail) ∧ AllAligned later tail

/-- The frames of a sequence of messages stay aligned, whatever follows them, if and only if each
message is one that the receiver reads to its end. -/
theorem frames_aligned_iff {o : ByteOrder} (sendings : List (Sending o)) (tail : List UInt8) :
    AllAligned sendings tail ↔ ∀ s ∈ sendings, s.InStep := by
  induction sendings with
  | nil => simp [AllAligned]
  | cons s later ih => rw [AllAligned, s.aligned_iff, ih, List.forall_mem_cons]

/-- An entry with a null pointer and zero padding. -/
def plainEntry (o : ByteOrder) (entry : MsgEntry) : Block sizeofMsgEntry :=
  ⟨o.image [entry.id, 0, 0, 0, UInt32.ofNat entry.data.length, 0], o.length_image _⟩

/-- The words of an entry that the receiver takes for fields of a header. -/
theorem field_plainEntry (o : ByteOrder) (entry : MsgEntry) :
    o.field (plainEntry o entry).bytes 0 = entry.id ∧
      o.field (plainEntry o entry).bytes 4 = UInt32.ofNat entry.data.length := by
  constructor <;> simp [plainEntry]

def plainLayout (o : ByteOrder) : EntryLayout o where
  image := fun _ => plainEntry o
  id := fun _ entry => (field_plainEntry o entry).1
  len := fun _ entry => (field_plainEntry o entry).2

/-- A message to a follower, both calls of which are written. -/
def sendingTo (o : ByteOrder) (timeoutElapsed : Int) (message : RaftMessage) : Sending o where
  message := message
  layout := plainLayout o
  first := ⟨⟨0, 0, true⟩, 0, true⟩
  second := ⟨⟨0, 0, true⟩, 0, true⟩
  receiver :=
    { state := .follower
      electionTimeout := 20000
      timeoutElapsed := timeoutElapsed
      leaderNode := none
      table := .empty
      sender := 1
      isEndianDiffer := false }

/-- Messages of an election are read as they were sent. -/
theorem frames_aligned_votes :
    AllAligned [sendingTo .little 10000 (.requestvote ⟨1, 0, 1, 0⟩),
      sendingTo .little 0 (.requestvoteResponse ⟨1, 1⟩),
      sendingTo .little 0 (.appendentries (.new 1 0 0 0 0))] [] := by
  refine (frames_aligned_iff _ _).mpr fun s member => ?_
  simp only [List.mem_cons, List.not_mem_nil, or_false] at member
  rcases member with rfl | rfl | rfl
  · exact fun _ => by decide
  · trivial
  · exact fun _ _ none => by cases none

/-- An AppendEntries message with one entry. -/
def oneEntry (entry : MsgEntry) : MsgAppendEntries :=
  { MsgAppendEntries.new 1 0 0 0 0 with entries := [entry], bounded := Nat.le_add_left 1 63 }

/-- The payload of an early RequestVote stays on the socket, and so do the last five bytes of an
entry: the byte read as the next request is not one that was written as a request. -/
theorem frames_not_aligned :
    ((receiveFromSocketAndInform .little
        (sendingTo .little 0 (.requestvote ⟨1, 0, 1, 0⟩)).receiver).runOn
          (sendingTo .little 0 (.requestvote ⟨1, 0, 1, 0⟩)).frame).map Ending.unread =
        some [1, 0, 0, 0, 0, 0, 0, 0, 1, 0, 0, 0, 0, 0, 0, 0] ∧
      ((receiveFromSocketAndInform .little
        (sendingTo .little 0 (.appendentries (oneEntry ⟨1, [7]⟩))).receiver).runOn
          (sendingTo .little 0 (.appendentries (oneEntry ⟨1, [7]⟩))).frame).map Ending.unread =
        some [0, 0, 0, 0, 0] := by
  decide

end Tcp

end CppRaft
