import Mathlib.Data.List.TakeDrop
import CppRaft.Tcp.Receive

/-!
# Membership frames on the wire

`SendInformationToNode` writes a request byte, a node key where the request has one,
and the extra data with its length in front. A receiver that accepts a request reads
all of it; one that rejects it leaves the part it has not read on the socket.
-/

namespace CppRaft

namespace Tcp

open Machine Store

/-- The `int32_t` that the size of a string is cast to. -/
def extraDataLen (data : List UInt8) : Int :=
  wordInt (intWord data.length)

/-- The bytes of a string that are written: as many as its cast size says. -/
def sentData (data : List UInt8) : List UInt8 :=
  if 0 < extraDataLen data then data.take (extraDataLen data).toNat else []

/-- The bytes that `SendInformationToNode` writes to a socket that takes them. -/
def sendInformationToNode (o : ByteOrder) (request : ReceiveRequest)
    (extraData : Option (List UInt8)) (nodeKey : Option NodeIdentifierKey) : List UInt8 :=
  request.code ::
    ((nodeKey.elim [] fun key => (key.image o).bytes) ++
      extraData.elim [] fun data => o.bytes (intWord (extraDataLen data)) ++ sentData data)

/-- The length field is an `int`. -/
theorem isInt_extraDataLen (data : List UInt8) : IsInt (extraDataLen data) :=
  isInt_wordInt _

/-- The length field is the size modulo two to the 32, with a sign: a large string has a
negative length. -/
theorem extraDataLen_eq (data : List UInt8) :
    extraDataLen data = (data.length : Int).bmod (2 ^ 32) :=
  wordInt_intWord_eq_bmod _

/-- A positive length is at most the size of the string. -/
theorem extraDataLen_le (data : List UInt8) : (extraDataLen data).toNat ≤ data.length := by
  rw [extraDataLen_eq, Int.bmod]
  split <;> omega

/-- A string shorter than `2 ^ 31` bytes is written whole, and no other one is. -/
theorem sentData_eq_iff (data : List UInt8) : sentData data = data ↔ data.length < 2 ^ 31 := by
  have cast : extraDataLen data = data.length ↔ data.length < 2 ^ 31 := by
    rw [extraDataLen_eq, Int.bmod]
    split <;> omega
  rw [← cast, sentData]
  split
  · rw [List.take_eq_self_iff]
    have atMost := extraDataLen_le data
    omega
  · rw [eq_comm, ← List.length_eq_zero_iff, cast]
    constructor
    · omega
    · intro short
      have same := cast.mpr short
      omega

/-- As many bytes are written as the length field says, and none if it is not positive. -/
theorem length_sentData (data : List UInt8) :
    (sentData data).length = if 0 < extraDataLen data then (extraDataLen data).toNat else 0 := by
  rw [sentData]
  split
  · exact List.length_take_of_le (extraDataLen_le data)
  · rfl

/-- `ReceiveExtraData` reads what was written. -/
theorem runOn_receiveExtraData (o : ByteOrder) (data rest : List UInt8) :
    (receiveExtraData o false).runOn
        (o.bytes (intWord (extraDataLen data)) ++ sentData data ++ rest) =
      some ⟨sentData data, [], rest⟩ := by
  have size := length_sentData data
  rw [receiveExtraData, List.append_assoc, runOn_readInt_bind o (isInt_extraDataLen data)]
  split
  · rename_i positive
    rw [if_pos positive] at size
    exact Session.runOn_read (fun block => .done block.bytes) ⟨sentData data, size⟩ rest
  · rename_i none
    rw [sentData, if_neg none, List.nil_append, Session.runOn_done]

/-- The requests that carry membership. -/
inductive MembershipFrame where
  | newNode (key : NodeIdentifierKey) (extraData : List UInt8)
  | removeNode (key : NodeIdentifierKey) (extraData : List UInt8)
  | oldLeaderDied (extraData : List UInt8)

namespace MembershipFrame

/-- The key that a frame carries. -/
def nodeKey : MembershipFrame → Option NodeIdentifierKey
  | newNode key _ => some key
  | removeNode key _ => some key
  | oldLeaderDied _ => none

/-- The extra data that a frame is to carry. -/
def extraData : MembershipFrame → List UInt8
  | newNode _ data => data
  | removeNode _ data => data
  | oldLeaderDied data => data

def request : MembershipFrame → ReceiveRequest
  | newNode _ _ => .newNode
  | removeNode _ _ => .removeNode
  | oldLeaderDied _ => .oldLeaderDied

/-- The bytes of a frame. -/
def bytes (o : ByteOrder) (f : MembershipFrame) : List UInt8 :=
  sendInformationToNode o f.request (some f.extraData) f.nodeKey

/-- The receiver does not turn the request down before it has read it. -/
def Reads (r : Receiver) : MembershipFrame → Prop
  | newNode key _ => r.table.find? key = none
  | removeNode _ _ => some r.sender = r.leaderNode ∧ r.state = .follower
  | oldLeaderDied _ => r.state ≠ .leader

/-- What the receiver makes of a frame that it reads to its end. -/
def accepted (f : MembershipFrame) : Received :=
  { accepted := true, nodeKey := f.nodeKey, extraData := sentData f.extraData }

variable (o : ByteOrder) {r : Receiver}

/-- A receiver that does not turn the request down reads the frame and nothing more, and
accepts what was sent. -/
theorem runOn_of_reads (same : r.isEndianDiffer = false) {f : MembershipFrame}
    (reads : f.Reads r) (rest : List UInt8) :
    (receiveFromSocketAndInform o r).runOn (f.bytes o ++ rest) =
      some ⟨f.accepted, [], rest⟩ := by
  rw [bytes, sendInformationToNode, List.cons_append, runOn_receive]
  cases f with
  | newNode key data =>
      simp only [request, nodeKey, extraData, Option.elim_some, List.append_assoc,
        handleReceiveFromNodeBeforeLockRcvContext, raftReceiveFromAdderNewNode]
      rw [Session.runOn_read, same, NodeIdentifierKey.received_image,
        if_neg (by rw [show r.table.find? key = none from reads]; simp), Session.runOn_bind,
        ← List.append_assoc, runOn_receiveExtraData]
      rfl
  | removeNode key data =>
      obtain ⟨leader, follower⟩ := reads
      simp only [request, nodeKey, extraData, Option.elim_some, List.append_assoc,
        handleReceiveFromNodeBeforeLockRcvContext, raftReceiveFromLeaderRemoveNode, leader,
        follower, ne_eq, not_true_eq_false, ↓reduceIte]
      rw [Session.runOn_read, same, NodeIdentifierKey.received_image, Session.runOn_bind,
        ← List.append_assoc, runOn_receiveExtraData]
      rfl
  | oldLeaderDied data =>
      simp only [request, nodeKey, extraData, Option.elim_some, Option.elim_none, List.nil_append,
        handleReceiveFromNodeBeforeLockRcvContext]
      rw [if_neg reads, same, Session.runOn_bind, runOn_receiveExtraData]
      rfl

/-- A session that ends at once leaves what was written. -/
private theorem not_leaves_done {α : Type} {a : α} {written : List UInt8} (rest : List UInt8)
    (some : 0 < written.length) : ¬(Session.done a).Leaves (written ++ rest) rest := by
  rw [Session.leaves_done, List.append_left_eq_self]
  exact List.ne_nil_of_length_pos some

private theorem extra_length_pos (data : List UInt8) :
    0 < (o.bytes (intWord (extraDataLen data)) ++ sentData data).length := by
  rw [List.length_append, o.length_bytes]
  exact Nat.add_pos_left (Nat.zero_lt_succ 3) _

/-- A receiver that turns the request down reads too little: the key or the extra data stay
in the socket and are taken for the next request. -/
theorem not_leaves_of_not_reads (same : r.isEndianDiffer = false) {f : MembershipFrame}
    (turnedDown : ¬f.Reads r) (rest : List UInt8) :
    ¬(receiveFromSocketAndInform o r).Leaves (f.bytes o ++ rest) rest := by
  rw [Session.Leaves, bytes, sendInformationToNode, List.cons_append, runOn_receive,
    ← Session.Leaves]
  cases f with
  | newNode key data =>
      have known : (r.table.find? key).isSome :=
        Option.isSome_iff_ne_none.mpr turnedDown
      simp only [request, nodeKey, extraData, Option.elim_some, List.append_assoc,
        handleReceiveFromNodeBeforeLockRcvContext, raftReceiveFromAdderNewNode]
      rw [Session.leaves_read, same, NodeIdentifierKey.received_image, if_pos known,
        ← List.append_assoc]
      exact not_leaves_done rest (extra_length_pos o data)
  | removeNode key data =>
      simp only [request, nodeKey, extraData, Option.elim_some,
        handleReceiveFromNodeBeforeLockRcvContext, raftReceiveFromLeaderRemoveNode]
      have some : 0 < ((key.image o).bytes ++
          (o.bytes (intWord (extraDataLen data)) ++ sentData data)).length := by
        rw [List.length_append]
        exact Nat.add_pos_right _ (extra_length_pos o data)
      by_cases leader : r.sender = r.leaderNode
      · have other : r.state ≠ .follower := fun follower => turnedDown ⟨leader, follower⟩
        rw [if_neg (not_not.mpr leader), if_pos other]
        exact not_leaves_done rest some
      · rw [if_pos leader]
        exact not_leaves_done rest some
  | oldLeaderDied data =>
      have leader : r.state = .leader := not_not.mp turnedDown
      simp only [request, nodeKey, extraData, Option.elim_some, Option.elim_none, List.nil_append,
        handleReceiveFromNodeBeforeLockRcvContext]
      rw [if_pos leader]
      exact not_leaves_done rest (extra_length_pos o data)

end MembershipFrame

/-- A receiver of the same byte order reads exactly the bytes of a membership frame, and has the
key and the extra data that were to be sent if it accepts the request, if and only if it does not
turn the request down before it has read it and the extra data is shorter than `2 ^ 31` bytes. -/
theorem membership_frame_aligned_iff (o : ByteOrder) (r : Receiver)
    (same : r.isEndianDiffer = false) (f : MembershipFrame) (rest : List UInt8) :
    (∃ result, (receiveFromSocketAndInform o r).runOn (f.bytes o ++ rest) =
        some ⟨result, [], rest⟩ ∧
      (result.accepted → result.nodeKey = f.nodeKey ∧ result.extraData = f.extraData)) ↔
    f.Reads r ∧ f.extraData.length < 2 ^ 31 := by
  by_cases reads : f.Reads r
  · rw [MembershipFrame.runOn_of_reads o same reads, ← sentData_eq_iff]
    simp [reads, MembershipFrame.accepted]
  · refine iff_of_false ?_ fun kept => reads kept.1
    rintro ⟨result, ran, -⟩
    exact MembershipFrame.not_leaves_of_not_reads o same reads rest ⟨result, [], ran⟩

/-- A receiver that follows node 1, which it receives from. -/
def followerOf (table : OrderedMap NodeIdentifierKey NodePtr) : Receiver where
  state := .follower
  electionTimeout := 20000
  timeoutElapsed := 0
  leaderNode := some 1
  table := table
  sender := 1
  isEndianDiffer := false

/-- A follower reads the removal of a node with two bytes of extra data, and stops before
the next request. -/
theorem membership_frame_aligned_removeNode :
    MembershipFrame.Reads (followerOf .empty) (.removeNode .zero [7, 7]) ∧
      ∃ result, (receiveFromSocketAndInform .little (followerOf .empty)).runOn
          ((MembershipFrame.removeNode .zero [7, 7]).bytes .little ++ [0]) =
          some ⟨result, [], [0]⟩ ∧
        (result.accepted → result.nodeKey = some NodeIdentifierKey.zero ∧
          result.extraData = [7, 7]) :=
  ⟨⟨rfl, rfl⟩, (membership_frame_aligned_iff .little (followerOf .empty) rfl
    (.removeNode .zero [7, 7]) [0]).mpr ⟨⟨rfl, rfl⟩, by decide⟩⟩

/-- A receiver that already knows the new node, one whose leader is another node, and one that is
leader itself: each leaves a part of the frame on the socket. -/
theorem rejected_frames_not_aligned :
    ((receiveFromSocketAndInform .little (followerOf (.insert .empty .zero 2))).runOn
        ((MembershipFrame.newNode .zero [7, 7]).bytes .little)).map Ending.unread =
        some [2, 0, 0, 0, 7, 7] ∧
      ((receiveFromSocketAndInform .little { followerOf .empty with leaderNode := some 2 }).runOn
        ((MembershipFrame.removeNode .zero []).bytes .little)).map Ending.unread =
        some (List.replicate 32 0) ∧
      ((receiveFromSocketAndInform .little { followerOf .empty with state := .leader }).runOn
        ((MembershipFrame.oldLeaderDied [7]).bytes .little)).map Ending.unread =
        some [1, 0, 0, 0, 7] := by
  decide

end Tcp

end CppRaft
