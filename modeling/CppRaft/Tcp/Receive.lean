import CppRaft.Core.Message
import CppRaft.Nodes.Table
import CppRaft.Server.State
import CppRaft.Store.OrderedMap
import CppRaft.Tcp.Wire

/-!
# Receiving from a node

What the receiving thread reads when the raft socket of a node has input:
`ReceiveFromSocketAndInform` with the decoders it calls, each with its early exits.
A socket delivers the bytes that were written, once and in order, and a read waits
until it has them all.
-/

namespace CppRaft

namespace Tcp

open Machine Store

/-- The message types of `raft_msg.h`. -/
inductive MessageType where
  | requestvote
  | requestvoteResponse
  | appendentries
  | appendentriesResponse
  | entry
  | entryResponse
  deriving DecidableEq, Repr

def MessageType.code : MessageType → UInt32
  | requestvote => 0
  | requestvoteResponse => 1
  | appendentries => 2
  | appendentriesResponse => 3
  | entry => 4
  | entryResponse => 5

/-- The type that a `switch` on a message type selects. -/
def MessageType.ofCode (code : UInt32) : Option MessageType :=
  [requestvote, requestvoteResponse, appendentries, appendentriesResponse, entry,
    entryResponse].find? fun type => decide (type.code = code)

@[simp] theorem MessageType.ofCode_code (type : MessageType) : ofCode type.code = some type := by
  cases type <;> rfl

/-- The request that a `switch` on a request byte selects. -/
def ReceiveRequest.ofCode (code : UInt8) : Option ReceiveRequest :=
  [ok, clbkCmd, resetPing, removeNode, newNode, toNewNodeAddPartitions, nodeWithKeyAlreadyExist,
    oldLeaderDied].find? fun request => decide (request.code = code)

@[simp] theorem ReceiveRequest.ofCode_code (request : ReceiveRequest) :
    ofCode request.code = some request := by
  cases request <;> rfl

/-- `sizeof(msg_requestvote_t)`. -/
def sizeofMsgRequestvote : ℕ := 16

/-- `sizeof(msg_requestvote_response_t)`. -/
def sizeofMsgRequestvoteResponse : ℕ := 8

/-- `SIZE_OF_INITIAL_RCV_OF_MSG_APP`. -/
def sizeOfInitialRcvOfMsgApp : ℕ := 24

/-- `sizeof(msg_appendentries_response_t)`. -/
def sizeofMsgAppendentriesResponse : ℕ := 16

/-- `sizeof(msg_entry_t)`: an id, a pointer and a length, with 64-bit pointers. -/
def sizeofMsgEntry : ℕ := 24

/-- The `int` at a position of a record. -/
def intField (o : ByteOrder) (bytes : List UInt8) (position : ℕ) : Int :=
  wordInt (o.field bytes position)

/-- The fields of a `MsgAppendEntries2` in front of its array. -/
structure AppendHeader where
  term : Int
  prevLogIdx : Int
  prevLogTerm : Int
  leaderCommit : Int
  nSize : Int
  numberOfEntriesToReceive : Int
  deriving DecidableEq, Repr

/-- What `HandleSeedClbk` hands to a handler of the server. -/
inductive SeedCall where
  | requestvote (vr : MsgRequestvote)
  | requestvoteResponse (r : MsgRequestvoteResponse)
  | appendentries (header : AppendHeader) (entries : List UInt8)
  | appendentriesResponse (r : MsgAppendentriesResponse)
  deriving DecidableEq, Repr

/-- What the receiving thread looks at besides the socket: the server, and the node that sent. -/
structure Receiver where
  state : RaftState
  electionTimeout : Int
  timeoutElapsed : Int
  leaderNode : Option NodePtr
  table : OrderedMap NodeIdentifierKey NodePtr
  sender : NodePtr
  isEndianDiffer : Bool

/-- The value `handleReceiveFromNodeBeforeLockRcvContext` returns, what it put into the job, and
the call that a Raft message led to. -/
structure Received where
  accepted : Bool
  nodeKey : Option NodeIdentifierKey := none
  extraData : List UInt8 := []
  seed : Option SeedCall := none
  deriving DecidableEq

/-- A rejected request. -/
def Received.rejected : Received :=
  { accepted := false }

variable (o : ByteOrder)

def MsgRequestvote.ofImage (bytes : List UInt8) : MsgRequestvote :=
  ⟨intField o bytes 0, intField o bytes 1, intField o bytes 2, intField o bytes 3⟩

def MsgRequestvoteResponse.ofImage (bytes : List UInt8) : MsgRequestvoteResponse :=
  ⟨intField o bytes 0, intField o bytes 1⟩

def AppendHeader.ofImage (bytes : List UInt8) : AppendHeader :=
  ⟨intField o bytes 0, intField o bytes 1, intField o bytes 2, intField o bytes 3,
    intField o bytes 4, intField o bytes 5⟩

def MsgAppendentriesResponse.ofImage (bytes : List UInt8) : MsgAppendentriesResponse :=
  ⟨intField o bytes 0, intField o bytes 1, intField o bytes 2, intField o bytes 3⟩

/-- `nToReceive` for a number of entries: the product is computed in `size_t` and stored in an
`int`. -/
def entryBytes (nEntries : Int) : Int :=
  wordInt (intWord (nEntries * sizeofMsgEntry))

/-- The entries of an AppendEntries message. `entries()` is `NULL` for a negative size, and the
array has `MAX_NUM_OF_APPEND_ENTRIES_LOG` elements; reading elsewhere is undefined. -/
def readEntries (nEntries : Int) : Session (List UInt8) :=
  if entryBytes nEntries = 0 then .done []
  else if 0 < nEntries ∧ 0 < entryBytes nEntries ∧
      entryBytes nEntries ≤ maxNumOfAppendEntriesLog * sizeofMsgEntry then
    .read (entryBytes nEntries).toNat fun block => .done block.bytes
  else .undefined

/-- The `switch` of `HandleSeedClbk`. -/
def seedSwitch (r : Receiver) : Option MessageType → Session (Option SeedCall)
  | some .requestvote =>
      if r.electionTimeout.tdiv 2 ≤ r.timeoutElapsed then
        .read sizeofMsgRequestvote fun block =>
          .done (some (.requestvote (MsgRequestvote.ofImage o block.bytes)))
      else .done none
  | some .requestvoteResponse =>
      .read sizeofMsgRequestvoteResponse fun block =>
        .done (some (.requestvoteResponse (MsgRequestvoteResponse.ofImage o block.bytes)))
  | some .appendentries =>
      .read sizeOfInitialRcvOfMsgApp fun block =>
        let header := AppendHeader.ofImage o block.bytes
        if header.nSize ≠ 0 then do
          let entries ← readEntries header.nSize
          .done (some (.appendentries header entries))
        else .done (some (.appendentries header []))
  | some .appendentriesResponse =>
      .read sizeofMsgAppendentriesResponse fun block =>
        .done (some (.appendentriesResponse (MsgAppendentriesResponse.ofImage o block.bytes)))
  | _ => .done none

/-- `HandleSeedClbk`. -/
def handleSeedClbk (r : Receiver) : Session (Option SeedCall) :=
  .read 4 fun type => seedSwitch o r (MessageType.ofCode (o.word type.bytes))

/-- `ReceiveExtraData`. -/
def receiveExtraData (isEndianDiffer : Bool) : Session (List UInt8) := do
  let nAddDataLen ← readInt o isEndianDiffer
  if 0 < nAddDataLen then .read nAddDataLen.toNat fun block => .done block.bytes else .done []

/-- `raft_receive_fromLeader_removeNode`. It does not swap the length of the extra data. -/
def raftReceiveFromLeaderRemoveNode (r : Receiver) : Session Received :=
  if some r.sender ≠ r.leaderNode then .done .rejected
  else if r.state ≠ .follower then .done .rejected
  else
    .read sizeofNodeIdentifierKey fun block => do
      let extraData ← receiveExtraData o false
      .done
        { accepted := true
          nodeKey := some (NodeIdentifierKey.received o r.isEndianDiffer block)
          extraData := extraData }

/-- `raft_receive_fromAdder_newNode`. -/
def raftReceiveFromAdderNewNode (r : Receiver) : Session Received :=
  .read sizeofNodeIdentifierKey fun block =>
    let nodeKey := NodeIdentifierKey.received o r.isEndianDiffer block
    if (r.table.find? nodeKey).isSome then .done .rejected
    else do
      let extraData ← receiveExtraData o r.isEndianDiffer
      .done { accepted := true, nodeKey := some nodeKey, extraData := extraData }

/-- `handleReceiveFromNodeBeforeLockRcvContext`. -/
def handleReceiveFromNodeBeforeLockRcvContext (r : Receiver) :
    Option ReceiveRequest → Session Received
  | some .ok => .done { accepted := true }
  | some .resetPing => .done { accepted := true }
  | some .clbkCmd => do
      let seed ← handleSeedClbk o r
      .done { accepted := true, seed := seed }
  | some .newNode => raftReceiveFromAdderNewNode o r
  | some .removeNode => raftReceiveFromLeaderRemoveNode o r
  | some .oldLeaderDied =>
      if r.state = .leader then .done .rejected
      else do
        let extraData ← receiveExtraData o r.isEndianDiffer
        .done { accepted := true, extraData := extraData }
  | _ => .done .rejected

/-- What `ReceiveFromSocketAndInform` reads from the socket of a node that is not marked for
deletion. -/
def receiveFromSocketAndInform (r : Receiver) : Session Received :=
  .read 1 fun block =>
    handleReceiveFromNodeBeforeLockRcvContext o r (ReceiveRequest.ofCode (block.bytes.headD 0))

/-- A request byte selects its decoder. -/
theorem runOn_receive (r : Receiver) (request : ReceiveRequest) (input : List UInt8) :
    (receiveFromSocketAndInform o r).runOn (request.code :: input) =
      (handleReceiveFromNodeBeforeLockRcvContext o r (some request)).runOn input := by
  have first := Session.runOn_read (fun block : Block 1 =>
    handleReceiveFromNodeBeforeLockRcvContext o r (ReceiveRequest.ofCode (block.bytes.headD 0)))
    ⟨[request.code], rfl⟩ input
  rw [List.headD_cons, ReceiveRequest.ofCode_code] at first
  exact first

/-- A type field selects its case. -/
theorem runOn_handleSeedClbk (r : Receiver) (type : MessageType) (input : List UInt8) :
    (handleSeedClbk o r).runOn (o.bytes type.code ++ input) =
      (seedSwitch o r (some type)).runOn input := by
  have first := Session.runOn_read (fun block : Block 4 =>
    seedSwitch o r (MessageType.ofCode (o.word block.bytes)))
    ⟨o.bytes type.code, o.length_bytes _⟩ input
  rw [o.word_bytes, MessageType.ofCode_code] at first
  exact first

end Tcp

end CppRaft
