import Mathlib.Data.List.Basic

/-!
# Messages and log entries

The records of `raft_msg.h`. An `int` is an `Int` and an `unsigned int` a
`UInt32`; a pointer to bytes with its length is the list of those bytes.
-/

namespace CppRaft

/-- `msg_requestvote_t`. -/
structure MsgRequestvote where
  term : Int
  candidateId : Int
  lastLogIdx : Int
  lastLogTerm : Int
  deriving DecidableEq, Repr

/-- `msg_requestvote_response_t`. -/
structure MsgRequestvoteResponse where
  term : Int
  voteGranted : Int
  deriving DecidableEq, Repr

/-- `msg_entry_t`. -/
structure MsgEntry where
  id : UInt32
  data : List UInt8
  deriving DecidableEq, Repr

/-- `msg_entry_response_t`. -/
structure MsgEntryResponse where
  id : UInt32
  wasCommitted : Int
  deriving DecidableEq, Repr

/-- `MAX_NUM_OF_APPEND_ENTRIES_LOG`. -/
def maxNumOfAppendEntriesLog : ℕ := 64

/-- `MsgAppendEntries2`, with the first `m_nSize` elements of its array. -/
structure MsgAppendEntries where
  term : Int
  prevLogIdx : Int
  prevLogTerm : Int
  leaderCommit : Int
  entries : List MsgEntry
  bounded : entries.length ≤ maxNumOfAppendEntriesLog
  deriving DecidableEq, Repr

/-- The five-argument constructor. It ignores `n_entries` and starts with no entries. -/
def MsgAppendEntries.new (term prevLogIdx prevLogTerm _nEntries leaderCommit : Int) :
    MsgAppendEntries where
  term := term
  prevLogIdx := prevLogIdx
  prevLogTerm := prevLogTerm
  leaderCommit := leaderCommit
  entries := []
  bounded := Nat.zero_le _

/-- `MsgAppendEntries2::hasAnyLogs`. -/
def MsgAppendEntries.hasAnyLogs (ae : MsgAppendEntries) : Bool :=
  decide (ae.prevLogIdx ≠ 0)

/-- `msg_appendentries_response_t`. -/
structure MsgAppendentriesResponse where
  term : Int
  success : Int
  currentIdx : Int
  firstIdx : Int
  deriving DecidableEq, Repr

/-- `raft_entry_t`. -/
structure RaftEntry where
  term : Int
  id : Int
  data : List UInt8
  numNodes : Int
  deriving DecidableEq, Repr

/-- The `int` that an `unsigned int` id is stored as. -/
def MsgEntry.intId (entry : MsgEntry) : Int :=
  entry.id.toBitVec.toInt

/-- The entry a message entry becomes in a log written in `term`
(`raft_entry_t` and `populateFromMsgEntry`). -/
def RaftEntry.ofMsgEntry (term : Int) (entry : MsgEntry) : RaftEntry where
  term := term
  id := entry.intId
  data := entry.data
  numNodes := 0

/-- What an entry says, apart from the acknowledgements counted on it. -/
def RaftEntry.content (entry : RaftEntry) : Int × Int × List UInt8 :=
  (entry.term, entry.id, entry.data)

/-- The payload of one `cb.send` call, by its message type. The entries of an
AppendEntries message follow its header in a call of their own. -/
inductive Message where
  | requestvote (vr : MsgRequestvote)
  | requestvoteResponse (r : MsgRequestvoteResponse)
  | appendentries (ae : MsgAppendEntries)
  | appendentriesPayload (entries : List MsgEntry)
  | appendentriesResponse (r : MsgAppendentriesResponse)
  | entryResponse (r : MsgEntryResponse)
  deriving DecidableEq, Repr

/-- The entries that a message carries. -/
def Message.entries : Message → List MsgEntry
  | .appendentries ae => ae.entries
  | .appendentriesPayload entries => entries
  | _ => []

@[simp] theorem RaftEntry.content_ofMsgEntry (term : Int) (entry : MsgEntry) :
    (RaftEntry.ofMsgEntry term entry).content = (term, entry.intId, entry.data) := rfl

/-- An id is stored as zero only if it is zero. -/
theorem MsgEntry.intId_eq_zero_iff (entry : MsgEntry) : entry.intId = 0 ↔ entry.id = 0 := by
  unfold intId
  rw [show (0 : Int) = (0 : BitVec 32).toInt from rfl, BitVec.toInt_inj]
  exact ⟨fun same => UInt32.toBitVec_inj.mp same, fun same => by rw [same]; rfl⟩

/-- Ids are stored without loss. -/
theorem MsgEntry.intId_inj {first second : MsgEntry} (same : first.intId = second.intId) :
    first.id = second.id :=
  UInt32.toBitVec_inj.mp (BitVec.toInt_inj.mp same)

end CppRaft
