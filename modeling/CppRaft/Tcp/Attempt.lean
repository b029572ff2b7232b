import CppRaft.Tcp.Join
import CppRaft.Tcp.Sockets

/-!
# Attempts to join

`TryFindClusterThredSafe` over a connection that can fail at any point, with the memory it asks
for, the tools of the nodes it adds and the descriptors it closes. As long as the connection
holds it does what the joiner of a completed join does. The number of nodes comes from the wire
and its byte size is cut to 32 bits, so that the array can be shorter than the loops over it.
-/

namespace CppRaft

namespace Tcp

open Machine

/-- The array of keys that was asked for: the attempt was abandoned or the process left before it
was read, or its bytes. -/
inductive NodesInfo where
  | abandoned
  | exited
  | received (nodesInfo : List UInt8)
  deriving DecidableEq, Repr

/-- The part of `TryFindClusterThredSafe` that reads the array of keys. A negative size is not
what `recv` returns. -/
def receiveNodesInfo (malloc : Int → Bool) (numberOfNodes : Int) : Dialogue NodesInfo :=
  if numberOfNodes < 1 then .done .abandoned
  else
    let bytesToReceive := keysSize numberOfNodes
    if ¬malloc bytesToReceive then .done .exited
    else if bytesToReceive < 0 then .done .abandoned
    else .read bytesToReceive.toNat (fun block => .done (.received block.bytes)) (.done .abandoned)

/-- The state of an attempt: the members of the server, the tools of its nodes, the socket of the
attempt and the descriptors that have been closed. -/
structure Attempt where
  members : Members
  tools : NodeIdentifierKey → NodeTools
  socket : Int
  closed : List Int

/-- How an attempt ends. -/
inductive Tried where
  | joined (s : Attempt) (extraData : List UInt8)
  | failed (s : Attempt)
  | exited

namespace Attempt

/-- An attempt by a server with these members. -/
def start (members : Members) : Attempt :=
  ⟨members, fun _ => .new, -1, []⟩

/-- `closeC` of the socket of the attempt. -/
def closeSocket (s : Attempt) : Attempt :=
  { s with socket := -1, closed := s.closed ++ closeC s.socket }

/-- `connectC` with what `socket` and `connect` return: the state after it and whether it
succeeds. -/
def connectC (descriptor : Int) (connects : Bool) (s : Attempt) : Attempt × Bool :=
  let s := { s with closed := s.closed ++ closeHard s.socket }
  if descriptor < 0 then ({ s with socket := -1 }, false)
  else ({ s with socket := descriptor }, connects)

/-- A connection needs a descriptor that `socket` gave. -/
theorem connectC_snd (descriptor : Int) (connects : Bool) (s : Attempt) :
    (s.connectC descriptor connects).2 = (decide (0 ≤ descriptor) && connects) := by
  unfold connectC
  by_cases refused : descriptor < 0
  · rw [if_pos refused, decide_eq_false (Int.not_le.mpr refused)]
    rfl
  · rw [if_neg refused, decide_eq_true (Int.not_lt.mp refused)]
    rfl

/-- `ConnectAndGetEndian2`; `none` for the failure it returns. -/
def connectAndGetEndian2 (o : ByteOrder) (request : ConnectRequest) (descriptor : Int)
    (connects : Bool) (s : Attempt) : Dialogue (Attempt × Option Bool) :=
  let (s, connected) := s.connectC descriptor connects
  if ¬connected then .done (s.closeSocket, none)
  else
    .read 2
      (fun remEndian =>
        .write (o.bytes request.code) (.done (s, some (decide (remEndian ≠ endianMark o))))
          (.done (s.closeSocket, none)))
      (.done (s.closeSocket, none))

/-- `AddNode` with the tools it makes; `none` for the `NULL` it returns. -/
def addNode? (key : NodeIdentifierKey) (s : Attempt) : Option Attempt :=
  (s.members.table.addNode? key).map fun table =>
    { s with
      members := { s.members with table := table }
      tools := Function.update s.tools key .new }

/-- `setSocket(raft, ...)` of the tools of a node. -/
def setRaftSocket (key : NodeIdentifierKey) (s : Attempt) : Option Attempt :=
  ((s.tools key).setSocket 0 s.socket).map fun (tools, closed) =>
    { s with tools := Function.update s.tools key tools, closed := s.closed ++ closed }

/-- `m_pLeaderNode = pNode` and `makeLeader`. -/
def setLeader (key : NodeIdentifierKey) (s : Attempt) : Attempt :=
  { s with
    members := { s.members with
      table := s.members.table.makeLeader key, leaderNode := some key } }

/-- One pass of the loop over the received keys, at position `i`. -/
def addReceivedNode (seed : NodeIdentifierKey) (leaderIndex : Int) (i : ℕ)
    (key : NodeIdentifierKey) (s : Attempt) : Option Attempt :=
  match s.addNode? key with
  | none => some s
  | some s => do
      let s ← if key = seed then s.setRaftSocket key else some s
      if (i : Int) = leaderIndex then some (s.setLeader key) else some s

/-- The loops of `TryFindClusterThredSafe` over the array, from position `i` on. A key that is not
inside the array has no meaning. -/
def addReceivedNodes (o : ByteOrder) (isEndianDiffer : Bool) (seed : NodeIdentifierKey)
    (leaderIndex : Int) :
    (left : ℕ) → (i : ℕ) → (nodesInfo : List UInt8) → Attempt → Option Attempt
  | 0, _, _, s => some s
  | left + 1, i, nodesInfo, s =>
      if inside : sizeofNodeIdentifierKey ≤ nodesInfo.length then do
        let key := NodeIdentifierKey.received o isEndianDiffer
          ⟨nodesInfo.take sizeofNodeIdentifierKey, List.length_take_of_le inside⟩
        let s ← s.addReceivedNode seed leaderIndex i key
        addReceivedNodes o isEndianDiffer seed leaderIndex left (i + 1)
          (nodesInfo.drop sizeofNodeIdentifierKey) s
      else none

/-- `ClearAllNodes`. -/
def clearAllNodes (s : Attempt) : Attempt :=
  { s with
    members := { s.members with table := ⟨[], List.nodup_nil, s.members.table.record⟩ }
    closed := s.closed ++ s.members.table.nodes.flatMap fun key => (s.tools key).destroy }

/-- `returnPoint` for an attempt that did not succeed. -/
def fail (s : Attempt) : Tried :=
  .failed s.clearAllNodes.closeSocket

/-- `AddOwnNode(false, ...)` and `returnPoint` for an attempt that succeeded. -/
def succeed (own : NodeIdentifierKey) (extraData : List UInt8) (s : Attempt) : Tried :=
  .joined { s with members := addOwnNode false own s.members, socket := -1 } extraData

/-- `ReceiveExtraData`; `none` for the failure it returns. -/
def receiveExtraData (o : ByteOrder) (isEndianDiffer : Bool) :
    Dialogue (Option (List UInt8)) :=
  .read 4
    (fun block =>
      let addDataLen := receivedInt o isEndianDiffer block.bytes
      if 0 < addDataLen then
        .read addDataLen.toNat (fun data => .done (some data.bytes)) (.done none)
      else .done (some []))
    (.done none)

/-- `TryFindClusterThredSafe` from the answer of the adder on. -/
def confirmJoin (o : ByteOrder) (isEndianDiffer : Bool) (own : NodeIdentifierKey) (s : Attempt) :
    Dialogue Tried :=
  .read 1
    (fun request =>
      if ReceiveRequest.ofCode (request.bytes.headD 0) = some .nodeWithKeyAlreadyExist then
        .done .exited
      else if ReceiveRequest.ofCode (request.bytes.headD 0) = some .toNewNodeAddPartitions then do
        match ← receiveExtraData o isEndianDiffer with
        | some extraData => .done (s.succeed own extraData)
        | none => .done s.fail
      else .done s.fail)
    (.done s.fail)

/-- `TryFindClusterThredSafe` after the loops over the keys. -/
def sendExtraData (o : ByteOrder) (isEndianDiffer : Bool) (own : NodeIdentifierKey)
    (extraData : List UInt8) (s : Attempt) : Dialogue Tried :=
  .write (o.bytes (intWord (extraDataLen extraData)))
    (.write (sentData extraData)
      (if extraDataLen extraData < 0 then .done s.fail else confirmJoin o isEndianDiffer own s)
      (.done s.fail))
    (.done s.fail)

/-- `TryFindClusterThredSafe` from the number of nodes on. -/
def receiveNodes (o : ByteOrder) (isEndianDiffer : Bool) (malloc : Int → Bool)
    (own seed : NodeIdentifierKey) (extraData : List UInt8) (leaderIndex numberOfNodes : Int)
    (s : Attempt) : Dialogue Tried := do
  match ← receiveNodesInfo malloc numberOfNodes with
  | .abandoned => .done s.fail
  | .exited => .done .exited
  | .received nodesInfo =>
      let s := { s with members := { s.members with leaderNode := none } }
      match addReceivedNodes o isEndianDiffer seed leaderIndex numberOfNodes.toNat 0 nodesInfo
        s with
      | none => .undefined
      | some s => sendExtraData o isEndianDiffer own extraData s

/-- `TryFindClusterThredSafe` for a seed, with what `malloc`, `socket` and `connect` return. -/
def tryFindClusterThredSafe (o : ByteOrder) (malloc : Int → Bool) (own seed : NodeIdentifierKey)
    (extraData : List UInt8) (descriptor : Int) (connects : Bool) (s : Attempt) :
    Dialogue Tried := do
  match ← s.connectAndGetEndian2 o .newNode descriptor connects with
  | (s, none) => .done s.fail
  | (s, some isEndianDiffer) =>
      .write (o.bytes (intWord own.port))
        (.read 4
          (fun leaderIndex =>
            .read 4
              (fun count =>
                receiveNodes o isEndianDiffer malloc own seed extraData
                  (receivedInt o isEndianDiffer leaderIndex.bytes)
                  (receivedInt o isEndianDiffer count.bytes) s)
              (.done s.fail))
          (.done s.fail))
        (.done s.fail)

section Array

variable (o : ByteOrder) (isEndianDiffer : Bool) (seed : NodeIdentifierKey) (leaderIndex : Int)

/-- The socket of a node is set at an index of the array. -/
theorem setRaftSocket_eq (key : NodeIdentifierKey) (s : Attempt) :
    s.setRaftSocket key = some
      { s with
        tools := Function.update s.tools key
          { s.tools key with
            sockets := Function.update (s.tools key).sockets .raft s.socket }
        closed := s.closed ++ closeC ((s.tools key).sockets .raft) } :=
  rfl

/-- What a pass over a new key does. -/
def added (i : ℕ) (key : NodeIdentifierKey) (s : Attempt) : Attempt :=
  let s := if key = seed then (s.setRaftSocket key).getD s else s
  if (i : Int) = leaderIndex then s.setLeader key else s

/-- One pass of the loop over the listing: a key that is known already is skipped, and any
other is added with its tools. -/
theorem addReceivedNode_eq (i : ℕ) (key : NodeIdentifierKey) (s : Attempt) :
    s.addReceivedNode seed leaderIndex i key =
      some ((s.addNode? key).elim s (added seed leaderIndex i key)) := by
  rw [addReceivedNode]
  cases s.addNode? key with
  | none => rfl
  | some s =>
      rw [Option.elim_some, added]
      by_cases own : key = seed
      · simp only [own, if_true, setRaftSocket_eq, Option.bind_eq_bind, Option.bind_some,
          Option.getD_some]
        split <;> rfl
      · simp only [own, if_false, Option.bind_eq_bind, Option.bind_some]
        split <;> rfl

/-- The loops stay inside the array exactly if it holds all the keys: they count with the
number that was announced, not with the size that was allocated. -/
theorem addReceivedNodes_isSome_iff (left i : ℕ) (nodesInfo : List UInt8) (s : Attempt) :
    (addReceivedNodes o isEndianDiffer seed leaderIndex left i nodesInfo s).isSome ↔
      left * sizeofNodeIdentifierKey ≤ nodesInfo.length := by
  induction left generalizing i nodesInfo s with
  | zero => simp [addReceivedNodes]
  | succ left ih =>
      rw [addReceivedNodes]
      split
      · rename_i inside
        simp only [addReceivedNode_eq, Option.bind_eq_bind, Option.bind_some, ih, List.length_drop]
        rw [sizeofNodeIdentifierKey] at inside ⊢
        omega
      · rename_i outside
        rw [sizeofNodeIdentifierKey] at outside ⊢
        simp only [Option.isSome_none, Bool.false_eq_true, false_iff]
        omega

end Array

end Attempt

section Count

variable {malloc : Int → Bool} {count : Int}

/-- The array is received if there is memory for it and the link delivers it; the size is
the product cut to an `int32_t`. -/
theorem run_receiveNodesInfo (malloc : Int → Bool) (count : Int) (link : Link) :
    (receiveNodesInfo malloc count).run link =
      some (if count < 1 then (.abandoned, link)
        else if malloc (keysSize count) = false then (.exited, link)
        else if keysSize count < 0 then (.abandoned, link)
        else if (keysSize count).toNat ≤ link.input.length then
          (.received (link.input.take (keysSize count).toNat),
            ⟨link.input.drop (keysSize count).toNat, link.capacity⟩)
        else (.abandoned, ⟨[], link.capacity⟩)) := by
  rw [receiveNodesInfo]
  split
  · rfl
  · simp only [Bool.not_eq_true]
    split
    · rfl
    · split
      · rfl
      · rw [Dialogue.run]
        split <;> rfl

private theorem cut_size_ne {size count : Int} (large : 2 ^ 31 ≤ 28 * count)
    (small : size < 2 ^ 31) : size.toNat ≠ count.toNat * 28 := by
  omega

/-- An array whose size fits is received whole if there is memory for it. -/
theorem run_receiveNodesInfo_whole {count : ℕ} (positive : 1 ≤ count)
    (small : count * sizeofNodeIdentifierKey < 2 ^ 31)
    (nodesInfo : Block (count * sizeofNodeIdentifierKey)) (rest : List UInt8) (capacity : ℕ) :
    (receiveNodesInfo malloc count).run ⟨nodesInfo.bytes ++ rest, capacity⟩ =
      some (if malloc (keysSize count) = false then (.exited, ⟨nodesInfo.bytes ++ rest, capacity⟩)
        else (.received nodesInfo.bytes, ⟨rest, capacity⟩)) := by
  have size : keysSize count = (count * sizeofNodeIdentifierKey : ℕ) := by
    rw [keysSize_natCast small, Int.natCast_mul]
  have counted : ¬(count : Int) < 1 := by omega
  rw [run_receiveNodesInfo, size, if_neg counted, if_neg (Int.not_lt.mpr (Int.natCast_nonneg _)),
    Int.toNat_natCast]
  rw [if_pos (nodesInfo.le_length_append rest), List.take_left' nodesInfo.sized,
    List.drop_left' nodesInfo.sized]

/-- When the array is received, and what of it: the first bytes of the link, as many as the
cut product says. -/
theorem received_of_run {link rest : Link} {nodesInfo : List UInt8}
    (ended : (receiveNodesInfo malloc count).run link = some (.received nodesInfo, rest)) :
    1 ≤ count ∧ malloc (keysSize count) = true ∧ 0 ≤ keysSize count ∧
      (keysSize count).toNat ≤ link.input.length ∧
      nodesInfo = link.input.take (keysSize count).toNat ∧
      rest = ⟨link.input.drop (keysSize count).toNat, link.capacity⟩ := by
  rw [run_receiveNodesInfo, Option.some.injEq] at ended
  split at ended
  · cases ended
  · split at ended
    · cases ended
    · split at ended
      · cases ended
      · split at ended
        · cases ended
          exact ⟨Int.not_lt.mp ‹_›, Bool.eq_true_of_not_eq_false ‹_›, Int.not_lt.mp ‹_›, ‹_›, rfl,
            rfl⟩
        · cases ended

/-- The number of nodes from the wire does not outrun the array exactly if its byte size fits in
an `int`, or the attempt does not come to read the array: the size is cut to a negative number,
there is no memory for it or the connection does not deliver it. -/
theorem node_count_within_buffer_iff (o : ByteOrder) (isEndianDiffer : Bool)
    (seed : NodeIdentifierKey) (leaderIndex : Int) (malloc : Int → Bool) (count : Int)
    (link : Link) :
    (∀ nodesInfo rest,
      (receiveNodesInfo malloc count).run link = some (.received nodesInfo, rest) →
        nodesInfo = link.input.take (count.toNat * sizeofNodeIdentifierKey) ∧
        nodesInfo.length = count.toNat * sizeofNodeIdentifierKey ∧
        ∀ s, (Attempt.addReceivedNodes o isEndianDiffer seed leaderIndex count.toNat 0 nodesInfo
          s).isSome) ↔
    count < 1 ∨ 28 * count < 2 ^ 31 ∨ 2 ^ 31 ≤ 28 * count % 2 ^ 32 ∨
      malloc (28 * count % 2 ^ 32) = false ∨ link.input.length < 28 * count % 2 ^ 32 := by
  constructor
  · intro within
    by_contra reaches
    obtain ⟨positive, large, small, memory, delivered⟩ : 1 ≤ count ∧ 2 ^ 31 ≤ 28 * count ∧
        28 * count % 2 ^ 32 < 2 ^ 31 ∧ malloc (28 * count % 2 ^ 32) = true ∧
        28 * count % 2 ^ 32 ≤ link.input.length := by
      simpa only [not_or, Int.not_lt, Int.not_le, Bool.not_eq_false] using reaches
    have nonneg : ¬28 * count % 2 ^ 32 < 0 := by omega
    have enough : (28 * count % 2 ^ 32).toNat ≤ link.input.length := by omega
    have ended := run_receiveNodesInfo malloc count link
    rw [keysSize_eq_ite, if_pos small, if_neg (Int.not_lt.mpr positive),
      if_neg (by rw [memory]; decide), if_neg nonneg, if_pos enough] at ended
    have long := (within _ _ ended).2.1
    rw [List.length_take_of_le enough] at long
    exact cut_size_ne large small long
  · intro condition nodesInfo rest ended
    obtain ⟨positive, memory, nonneg, delivered, rfl, _⟩ := received_of_run ended
    obtain ⟨small, size⟩ := keysSize_of_nonneg nonneg
    have fits : 28 * count < 2 ^ 31 := by
      rw [size] at memory delivered
      obtain few | fits | negative | noMemory | short := condition
      · exact absurd few (Int.not_lt.mpr positive)
      · exact fits
      · exact absurd negative (Int.not_le.mpr small)
      · rw [memory] at noMemory
        cases noMemory
      · exact absurd short (Int.not_lt.mpr (Int.toNat_le.mp delivered))
    have whole : (keysSize count).toNat = count.toNat * sizeofNodeIdentifierKey := by
      rw [keysSize_of_lt (Int.le_trans Int.one_nonneg positive) fits, Int.toNat_natCast]
    rw [whole] at delivered ⊢
    have long := List.length_take_of_le delivered
    exact ⟨rfl, long, fun s => (Attempt.addReceivedNodes_isSome_iff o isEndianDiffer seed
      leaderIndex count.toNat 0 _ s).mpr (Nat.le_of_eq long.symm)⟩

/-- The keys of 153391690 nodes have `2 ^ 32 + 24` bytes, of which 24 are asked for; the first key
already leaves the array. -/
theorem node_count_outruns_buffer :
    (receiveNodesInfo (fun _ => true) 153391690).run ⟨List.replicate 24 0, 0⟩ =
        some (.received (List.replicate 24 0), ⟨[], 0⟩) ∧
      ∀ s, Attempt.addReceivedNodes .little false .zero 0 153391690 0 (List.replicate 24 0) s =
        none :=
  ⟨by decide, fun _ => rfl⟩

end Count

namespace Attempt

variable {seed : NodeIdentifierKey} {leaderIndex : Int}

/-- The loop over the keys of an array that holds them all. -/
def addKeys (seed : NodeIdentifierKey) (leaderIndex : Int) :
    (i : ℕ) → List NodeIdentifierKey → Attempt → Attempt
  | _, [], s => s
  | i, key :: keys, s =>
      addKeys seed leaderIndex (i + 1) keys
        ((s.addNode? key).elim s (added seed leaderIndex i key))

/-- Over an array of the right size the loop adds the keys that the array holds. -/
theorem addReceivedNodes_block (o : ByteOrder) (isEndianDiffer : Bool) {count : ℕ}
    (nodesInfo : Block (count * sizeofNodeIdentifierKey)) (i : ℕ) (s : Attempt) :
    addReceivedNodes o isEndianDiffer seed leaderIndex count i nodesInfo.bytes s =
      some (addKeys seed leaderIndex i (receivedKeys o isEndianDiffer count nodesInfo) s) := by
  induction count generalizing i s with
  | zero => rfl
  | succ count ih =>
      have inside : sizeofNodeIdentifierKey ≤ nodesInfo.bytes.length := by
        rw [nodesInfo.sized, Nat.succ_mul]
        exact Nat.le_add_left _ _
      rw [addReceivedNodes, dif_pos inside]
      have sized : (nodesInfo.bytes.drop sizeofNodeIdentifierKey).length =
          count * sizeofNodeIdentifierKey := by
        rw [List.length_drop, nodesInfo.sized, Nat.succ_mul, Nat.add_sub_cancel]
      simp only [addReceivedNode_eq, Option.bind_eq_bind, Option.bind_some]
      exact ih ⟨_, sized⟩ (i + 1) _

/-- The members after a pass are those of the joiner of a completed join. -/
theorem members_pass (i : ℕ) (key : NodeIdentifierKey) (keys : List NodeIdentifierKey)
    (s : Attempt) :
    addReceived leaderIndex i (key :: keys) s.members =
      addReceived leaderIndex (i + 1) keys
        ((s.addNode? key).elim s (added seed leaderIndex i key)).members := by
  rw [addReceived, addNode?]
  cases s.members.table.addNode? key with
  | none => rfl
  | some table =>
      simp only [Option.map_some, Option.elim_some, added, setRaftSocket_eq, Option.getD_some]
      by_cases own : key = seed <;> by_cases leader : (i : Int) = leaderIndex <;>
        simp only [own, leader, if_true, if_false, setLeader]

/-- What the loop does to the members is what the loop without sockets does. -/
theorem members_addKeys (i : ℕ) (keys : List NodeIdentifierKey) (s : Attempt) :
    (addKeys seed leaderIndex i keys s).members = addReceived leaderIndex i keys s.members := by
  induction keys generalizing i s with
  | nil => rfl
  | cons key keys ih =>
      rw [addKeys, ih]
      exact (members_pass i key keys s).symm

variable {o : ByteOrder} {malloc : Int → Bool} {own : NodeIdentifierKey} {extraData : List UInt8}

/-- The attempt after its connection was made. -/
def connected (members : Members) (descriptor : Int) : Attempt :=
  ⟨members, fun _ => .new, descriptor, []⟩

/-- An attempt over a connection that was made: the handshake, the leader index and the
number of nodes, then the listing. -/
theorem tryFindClusterThredSafe_connected {members : Members} {descriptor : Int}
    (nonneg : 0 ≤ descriptor) :
    tryFindClusterThredSafe o malloc own seed extraData descriptor true (start members) =
      .read 2
        (fun remEndian =>
          .write (o.bytes ConnectRequest.newNode.code)
            (.write (o.bytes (intWord own.port))
              (.read 4
                (fun index =>
                  .read 4
                    (fun number =>
                      receiveNodes o (decide (remEndian ≠ endianMark o)) malloc own seed extraData
                        (receivedInt o (decide (remEndian ≠ endianMark o)) index.bytes)
                        (receivedInt o (decide (remEndian ≠ endianMark o)) number.bytes)
                        (connected members descriptor))
                    (.done (connected members descriptor).fail))
                (.done (connected members descriptor).fail))
              (.done (connected members descriptor).fail))
            (.done (connected members descriptor).closeSocket.fail))
        (.done (connected members descriptor).closeSocket.fail) := by
  have opened : (start members).connectC descriptor true =
      (connected members descriptor, true) := by
    rw [connectC, if_neg (Int.not_lt.mpr nonneg)]
    rfl
  simp only [tryFindClusterThredSafe, connectAndGetEndian2, opened]
  rfl

/-- An attempt ends as the joiner of a completed join. -/
inductive Agrees : Joined → Tried → Prop where
  | joined (s : Attempt) (extraData : List UInt8) :
      Agrees (.joined s.members extraData) (.joined s extraData)
  | failed (s : Attempt) : Agrees .failed (.failed s)
  | exited : Agrees .exited .exited

/-- With a connection that holds, the extra data are read as by the session. -/
theorem follows_receiveExtraData (isEndianDiffer : Bool) :
    Dialogue.Follows (fun data received => received = some data)
      (Tcp.receiveExtraData o isEndianDiffer) (receiveExtraData o isEndianDiffer) := by
  refine .read fun block => ?_
  simp only [Session.bind]
  split
  · exact .read fun data => .done rfl
  · exact .done rfl

/-- With a connection that holds, the end of an attempt is that of the session. -/
theorem follows_confirmJoin (isEndianDiffer : Bool) {s : Attempt} {members : Members}
    (same : s.members = members) :
    Dialogue.Follows Agrees (Tcp.confirmJoin o isEndianDiffer own members)
      (confirmJoin o isEndianDiffer own s) := by
  subst same
  refine .read fun request => ?_
  split
  · exact .done .exited
  · split
    · refine (follows_receiveExtraData isEndianDiffer).bind ?_
      rintro data _ rfl
      exact .done (.joined { s with members := addOwnNode false own s.members, socket := -1 } data)
    · exact .done (.failed _)

/-- The array of a number of nodes whose size fits is read as a whole. -/
theorem receiveNodesInfo_of_fits (memory : ∀ size, malloc size = true) {count : ℕ}
    (positive : ¬(count : Int) < 1)
    (fits : keysSize count = (count * sizeofNodeIdentifierKey : ℕ)) :
    receiveNodesInfo malloc count =
      .read (count * sizeofNodeIdentifierKey) (fun block => .done (.received block.bytes))
        (.done .abandoned) := by
  have nonneg : ¬keysSize count < 0 := by
    rw [fits]
    exact Int.not_lt.mpr (Int.natCast_nonneg _)
  simp only [receiveNodesInfo, if_neg positive, memory, not_true_eq_false, if_false,
    if_neg nonneg]
  rw [fits, Int.toNat_natCast]

/-- With a connection that holds and memory enough, the listing is read as by the session. -/
theorem follows_receiveNodes (memory : ∀ size, malloc size = true) (isEndianDiffer : Bool)
    (count : Int) (s : Attempt) :
    Dialogue.Follows Agrees
      (if count < 1 then .done .failed
        else Tcp.receiveNodes o isEndianDiffer own extraData leaderIndex count.toNat s.members)
      (receiveNodes o isEndianDiffer malloc own seed extraData leaderIndex count s) := by
  split
  · rename_i few
    rw [receiveNodes, receiveNodesInfo, if_pos few]
    exact .done (.failed _)
  · rename_i positive
    lift count to ℕ using by omega
    rw [Tcp.receiveNodes, Int.toNat_natCast]
    split
    · rename_i fits
      rw [receiveNodes, receiveNodesInfo_of_fits memory positive fits]
      refine .read fun nodesInfo => ?_
      simp only [Dialogue.bind, Int.toNat_natCast, addReceivedNodes_block]
      refine .write (.write ?_)
      split
      · exact .done (.failed _)
      · exact follows_confirmJoin isEndianDiffer (members_addKeys 0 _ _)
    · exact .undefined _

/-- As long as its connection holds, an attempt does what the joiner of a completed join does. -/
theorem follows_tryFindClusterThredSafe (memory : ∀ size, malloc size = true)
    {descriptor : Int} (opened : 0 ≤ descriptor) (members : Members) :
    Dialogue.Follows Agrees (Tcp.tryFindClusterThredSafe o own extraData members)
      (tryFindClusterThredSafe o malloc own seed extraData descriptor true (start members)) := by
  rw [tryFindClusterThredSafe_connected opened]
  exact .read fun mark => .write (.write (.read fun index => .read fun number =>
    follows_receiveNodes memory _ _ (connected members descriptor)))

/-- Over a link that delivers what the joiner reads and takes what it writes, an attempt ends as
the join does. -/
theorem run_of_runOn (memory : ∀ size, malloc size = true) {descriptor : Int}
    (opened : 0 ≤ descriptor) {members : Members} {link : Link} {ending : Ending Joined}
    (ended : (Tcp.tryFindClusterThredSafe o own extraData members).runOn link.input = some ending)
    (taken : ending.written.length ≤ link.capacity) :
    ∃ tried, Agrees ending.result tried ∧
      (tryFindClusterThredSafe o malloc own seed extraData descriptor true
        (start members)).run link =
        some (tried, ⟨ending.unread, link.capacity - ending.written.length⟩) :=
  (follows_tryFindClusterThredSafe memory opened members).run ended taken

end Attempt

end Tcp

end CppRaft
