import Mathlib.Logic.Function.Basic
import CppRaft.Machine.Dialogue
import CppRaft.Tcp.Wire

/-!
# The sockets of a node

A socket object holds a descriptor and closes it when it is closed or destroyed. The tools of a
node have two of them, chosen by an index that comes from the wire for a permanent bridge: the
node that connects says which of the two the connection is to become.
-/

namespace CppRaft

namespace Tcp

open Machine

/-- `SocketBase::closeHard` of a socket with this descriptor: what it passes to `close`. -/
def closeHard (socket : Int) : List Int :=
  if 0 < socket then [socket] else []

/-- `SocketBase::closeC`, of a socket without clones. -/
def closeC (socket : Int) : List Int :=
  if 0 ≤ socket then closeHard socket else []

/-- A socket closes its descriptor once, unless it is zero. -/
theorem closeC_eq (socket : Int) : closeC socket = if 0 < socket then [socket] else [] := by
  rw [closeC, closeHard]
  split
  · rfl
  · rw [if_neg (by omega)]

/-- `socketTypes`. -/
inductive SocketType where
  | raft
  | data1
  deriving DecidableEq, Repr

/-- `NUMBER_OF_TOOLS_SOCKETS`. -/
def numberOfToolsSockets : Int := 2

/-- `VALIDATE_INDEX_INVALID`. -/
def validateIndexInvalid (index : Int) : Bool :=
  decide (index < numberOfToolsSockets)

/-- The element of an array of `NUMBER_OF_TOOLS_SOCKETS` elements at an index, if there is one. -/
def SocketType.at? (index : Int) : Option SocketType :=
  if index = 0 then some .raft else if index = 1 then some .data1 else none

/-- The sockets of a node are those with an index of the array. -/
theorem SocketType.isSome_at?_iff (index : Int) :
    (SocketType.at? index).isSome ↔ 0 ≤ index ∧ index < numberOfToolsSockets := by
  rw [at?, numberOfToolsSockets]
  split
  · simp_all
  · split
    · simp_all
    · simp only [Option.isSome_none, Bool.false_eq_true, false_iff]
      omega

/-- `NodeTools`: the descriptors of its sockets. -/
structure NodeTools where
  sockets : SocketType → Int
  isEndianDiffer : Bool

namespace NodeTools

/-- The constructed tools. -/
def new : NodeTools :=
  ⟨fun _ => -1, false⟩

/-- `setSocket`: the tools after it and what was closed. -/
def setSocket (index : Int) (socketNum : Int) (tools : NodeTools) :
    Option (NodeTools × List Int) :=
  if ¬validateIndexInvalid index then some (tools, [])
  else
    (SocketType.at? index).map fun type =>
      ({ tools with sockets := Function.update tools.sockets type socketNum },
        closeC (tools.sockets type))

/-- The destructor closes the sockets, the last one first. -/
def destroy (tools : NodeTools) : List Int :=
  closeC (tools.sockets .data1) ++ closeC (tools.sockets .raft)

end NodeTools

/-- What a worker sees while it handles an accepted connection. -/
structure Connection where
  clientSock : Int
  tools : NodeIdentifierKey → NodeTools
  intrptSocketForRcv : SocketType → Int
  rcvThreadIds : SocketType → ℕ
  closed : List Int
  signalled : List ℕ

namespace Connection

/-- `InterruptReceivercThread`, with the descriptor that `CreateEmptySocket` returns. -/
def interruptReceivercThread (index emptySocket : Int) (s : Connection) : Option Connection :=
  if ¬validateIndexInvalid index then some s
  else
    (SocketType.at? index).map fun type =>
      let s :=
        if 0 < s.intrptSocketForRcv type then
          { s with
            intrptSocketForRcv := Function.update s.intrptSocketForRcv type emptySocket
            closed := s.closed ++ [s.intrptSocketForRcv type] }
        else s
      if s.rcvThreadIds type ≠ 0 then
        { s with signalled := s.signalled ++ [s.rcvThreadIds type] }
      else s

/-- `isEndianDiffer` of the tools of a node. -/
def setEndian (node : NodeIdentifierKey) (isEndianDiffer : Bool) (s : Connection) : Connection :=
  { s with
    tools := Function.update s.tools node { s.tools node with isEndianDiffer := isEndianDiffer } }

/-- `raft_connect_toAnyNode_permanentBridge` from the index on. -/
def setBridge (node : NodeIdentifierKey) (index emptySocket : Int) (s : Connection) :
    Option Connection := do
  let (tools, closed) ← (s.tools node).setSocket index s.clientSock
  let s :=
    { s with
      tools := Function.update s.tools node tools
      closed := s.closed ++ closed
      clientSock := -1 }
  s.interruptReceivercThread index emptySocket

/-- The destructor of the socket in `HandleNewConnectionPrivate`. -/
def leave (s : Connection) : Connection :=
  { s with clientSock := -1, closed := s.closed ++ closeC s.clientSock }

/-- `aRemHost`: the address of the connection, and the port that was read. -/
def remHost (o : ByteOrder) (isEndianDiffer : Bool) (address : Block maxIp4Len)
    (port : List UInt8) : NodeIdentifierKey where
  port := receivedInt o isEndianDiffer port
  ip4Address := address
  portFits := isInt_wordInt _

variable (o : ByteOrder) (isEndianDiffer : Bool) (address : Block maxIp4Len)
  (nodes : List NodeIdentifierKey) (emptySocket : Int)

/-- `raft_connect_toAnyNode_permanentBridge` for a connection from an address, and the end of
`HandleNewConnectionPrivate`. -/
def raftConnectToAnyNodePermanentBridge (s : Connection) : Dialogue Connection :=
  .read 4
    (fun port =>
      let remHost := remHost o isEndianDiffer address port.bytes
      if (nodes.find? fun key => decide (key = remHost)).isNone then .done s.leave
      else
        let s := s.setEndian remHost isEndianDiffer
        .read 4
          (fun index =>
            (s.setBridge remHost (receivedInt o isEndianDiffer index.bytes) emptySocket).elim
              .undefined fun s => .done s.leave)
          (.done s.leave))
    (.done s.leave)

section

variable {node : NodeIdentifierKey} {index : Int} {s : Connection}

/-- An index that passes the check and is not negative is one of the array. -/
theorem setBridge_isSome (inside : 0 ≤ index ∧ index < numberOfToolsSockets) :
    (s.setBridge node index emptySocket).isSome := by
  obtain ⟨type, found⟩ := Option.isSome_iff_exists.mp ((SocketType.isSome_at?_iff index).mpr inside)
  have valid : validateIndexInvalid index = true := decide_eq_true inside.2
  simp [setBridge, NodeTools.setSocket, interruptReceivercThread, valid, found]

/-- A negative index passes the check and is outside the array. -/
theorem setBridge_negative (negative : index < 0) : s.setBridge node index emptySocket = none := by
  have outside : SocketType.at? index = none := by
    rw [← Option.not_isSome_iff_eq_none, SocketType.isSome_at?_iff]
    omega
  have valid : validateIndexInvalid index = true :=
    decide_eq_true (by rw [numberOfToolsSockets]; omega)
  simp [setBridge, NodeTools.setSocket, valid, outside]

/-- An index that is refused leaves the descriptor to nobody. -/
theorem setBridge_refused (large : numberOfToolsSockets ≤ index) {after : Connection}
    (set : s.setBridge node index emptySocket = some after) :
    after.closed = s.closed ∧ after.clientSock = -1 := by
  have refused : validateIndexInvalid index = false := decide_eq_false (by omega)
  simp only [setBridge, NodeTools.setSocket, interruptReceivercThread, refused,
    Bool.false_eq_true, not_false_eq_true, if_true, Option.bind_eq_bind, Option.bind_some,
    Option.some.injEq] at set
  subst set
  exact ⟨List.append_nil _, rfl⟩

end

variable {o isEndianDiffer address nodes}

/-- Every access that a permanent bridge makes is inside its array, and a connection whose index
is refused is closed once, exactly if the index that was received is one of the array. -/
theorem bridge_index_checked_iff (s : Connection) {port index : Block 4}
    (known : remHost o isEndianDiffer address port.bytes ∈ nodes) (rest : List UInt8)
    (capacity : ℕ) :
    (∃ after left, (raftConnectToAnyNodePermanentBridge o isEndianDiffer address nodes emptySocket
        s).run ⟨port.bytes ++ (index.bytes ++ rest), capacity⟩ = some (after, left) ∧
      (¬(0 ≤ receivedInt o isEndianDiffer index.bytes ∧
          receivedInt o isEndianDiffer index.bytes < numberOfToolsSockets) →
        after.closed.count s.clientSock = s.closed.count s.clientSock + 1)) ↔
    0 ≤ receivedInt o isEndianDiffer index.bytes ∧
      receivedInt o isEndianDiffer index.bytes < numberOfToolsSockets := by
  have found : ¬(nodes.find? fun key =>
      decide (key = remHost o isEndianDiffer address port.bytes)).isNone := by
    rw [Option.isNone_iff_eq_none, List.find?_eq_none]
    exact fun absent => absent _ known (decide_eq_true rfl)
  rw [raftConnectToAnyNodePermanentBridge, Dialogue.run_read, if_neg found, Dialogue.run_read]
  generalize receivedInt o isEndianDiffer index.bytes = received
  constructor
  · rintro ⟨after, left, ended, once⟩
    by_contra outside
    by_cases negative : received < 0
    · rw [setBridge_negative emptySocket negative] at ended
      cases ended
    · have large : numberOfToolsSockets ≤ received := by omega
      generalize set : setBridge _ received emptySocket (s.setEndian _ _) = bridge at ended
      cases bridge with
      | none => cases ended
      | some bridged =>
          obtain ⟨closed, released⟩ := setBridge_refused emptySocket large set
          obtain ⟨rfl, _⟩ := Prod.ext_iff.mp (Option.some.inj ended)
          have kept : bridged.leave.closed = s.closed := by
            rw [leave, released, closed]
            exact List.append_nil _
          have counted := once outside
          rw [kept] at counted
          omega
  · intro inside
    obtain ⟨bridged, set⟩ := Option.isSome_iff_exists.mp (setBridge_isSome emptySocket inside)
    exact ⟨bridged.leave, _, by rw [set]; rfl, fun outside => absurd inside outside⟩

/-- A connection that has been accepted, on a server whose nodes have no open sockets. -/
def accepted (descriptor : Int) : Connection :=
  ⟨descriptor, fun _ => .new, fun _ => -1, fun _ => 0, [], []⟩

/-- A bridge for the socket `data1` of a known node. -/
theorem bridge_index_checked_data : ∃ port index : Block 4,
    remHost .little false NodeIdentifierKey.zero.ip4Address port.bytes ∈
      [NodeIdentifierKey.zero] ∧
    ∃ after left, (raftConnectToAnyNodePermanentBridge .little false
        NodeIdentifierKey.zero.ip4Address [NodeIdentifierKey.zero] (-1) (accepted 7)).run
          ⟨port.bytes ++ (index.bytes ++ []), 0⟩ = some (after, left) ∧
      (¬(0 ≤ receivedInt .little false index.bytes ∧
          receivedInt .little false index.bytes < numberOfToolsSockets) →
        after.closed.count 7 = 1) :=
  have known : remHost .little false NodeIdentifierKey.zero.ip4Address [0, 0, 0, 0] ∈
      [NodeIdentifierKey.zero] := by decide
  ⟨⟨[0, 0, 0, 0], rfl⟩, ⟨[1, 0, 0, 0], rfl⟩, known,
    (@bridge_index_checked_iff .little false _ _ (-1) (accepted 7) ⟨[0, 0, 0, 0], rfl⟩
      ⟨[1, 0, 0, 0], rfl⟩ known [] 0).mpr (by decide)⟩

/-- For index 2 the descriptor 7 is neither kept nor closed, and index -1 leaves the array. -/
theorem bridge_index_unchecked :
    ((raftConnectToAnyNodePermanentBridge .little false NodeIdentifierKey.zero.ip4Address
        [NodeIdentifierKey.zero] (-1) (accepted 7)).run ⟨[0, 0, 0, 0, 2, 0, 0, 0], 0⟩).map
          (fun ended => (ended.1.clientSock, ended.1.closed,
            (ended.1.tools NodeIdentifierKey.zero).sockets .raft,
            (ended.1.tools NodeIdentifierKey.zero).sockets .data1)) =
        some (-1, [], -1, -1) ∧
      ((raftConnectToAnyNodePermanentBridge .little false NodeIdentifierKey.zero.ip4Address
        [NodeIdentifierKey.zero] (-1) (accepted 7)).run
          ⟨[0, 0, 0, 0, 255, 255, 255, 255], 0⟩).isNone := by
  decide

end Connection

end Tcp

end CppRaft
