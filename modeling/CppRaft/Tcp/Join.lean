import CppRaft.Nodes.Members
import CppRaft.Tcp.Membership

/-!
# Joining a cluster

The two programs of a join: `TryFindClusterThredSafe` on the joiner, and
`HandleNewConnectionPrivate` with its parts before, under and after the lock on the
adder. They run at the two ends of one connection between machines of the same byte
order. Whatever turns they take, a join that succeeds leaves the adder with the
joiner's key behind its old ones, and the joiner with the same keys in the same order
and the same leader.
-/

namespace CppRaft

/-- `AddNode` on a table whose nodes are named by their keys; `none` for the `NULL` it returns. -/
def NodeTable.addNode? {Node : Type} [DecidableEq Node] (table : NodeTable Node) (node : Node) :
    Option (NodeTable Node) :=
  if fresh : node ∉ table.nodes then
    some
      { nodes := table.nodes ++ [node]
        distinct := List.nodup_append_comm.mpr (List.nodup_cons.mpr ⟨fresh, table.distinct⟩)
        record := Function.update table.record node {} }
  else none

/-- `makeLeader` of a node. -/
def NodeTable.makeLeader {Node : Type} [DecidableEq Node] (table : NodeTable Node) (node : Node) :
    NodeTable Node :=
  table.update node fun record => { record with isLeader := true }

namespace Tcp

open Machine

/-- The membership fields of a `raft::tcp::Server`; nodes are named by their keys. -/
structure Members where
  table : NodeTable NodeIdentifierKey
  leaderNode : Option NodeIdentifierKey
  thisNode : Option NodeIdentifierKey

/-- The constructed server. -/
def unjoined : Members :=
  ⟨⟨[], List.nodup_nil, fun _ => {}⟩, none, none⟩

/-- `snEndian = 1` in the memory of the acceptor, a `uint16_t`. -/
def endianMark : ByteOrder → Block 2
  | .little => ⟨[1, 0], rfl⟩
  | .big => ⟨[0, 1], rfl⟩

/-- The index that `CollectAllNodesDataNotThrSafe` finds from position `i` on: the last node
that is flagged as leader. -/
def collectLeaderIndex (record : NodeIdentifierKey → RaftNode) :
    (i : ℕ) → (leaderIndex : Int) → List NodeIdentifierKey → Int
  | _, leaderIndex, [] => leaderIndex
  | i, leaderIndex, key :: keys =>
      collectLeaderIndex record (i + 1) (if (record key).isLeader then i else leaderIndex) keys

/-- The `int32_t` byte size of an array of keys. -/
def keysSize (count : Int) : Int :=
  wordInt (intWord (count * sizeofNodeIdentifierKey))

/-- A byte size that fits in an `int` is not cut. -/
theorem keysSize_natCast {count : ℕ} (few : count * sizeofNodeIdentifierKey < 2 ^ 31) :
    keysSize count = count * sizeofNodeIdentifierKey := by
  refine wordInt_intWord ?_
  rw [sizeofNodeIdentifierKey] at few ⊢
  constructor <;> omega

/-- The same for an announced number of keys. -/
theorem keysSize_of_lt {count : Int} (nonneg : 0 ≤ count) (few : 28 * count < 2 ^ 31) :
    keysSize count = (count.toNat * sizeofNodeIdentifierKey : ℕ) := by
  lift count to ℕ using nonneg
  rw [keysSize_natCast (by rw [sizeofNodeIdentifierKey]; omega), Int.toNat_natCast]
  exact (Int.natCast_mul _ _).symm

/-- The byte size of an array of keys, in the form that case splits use: for enough keys it
is negative. -/
theorem keysSize_eq_ite (count : Int) :
    keysSize count = if 28 * count % 2 ^ 32 < 2 ^ 31 then 28 * count % 2 ^ 32
      else 28 * count % 2 ^ 32 - 2 ^ 32 := by
  rw [keysSize, wordInt_intWord_eq_ite, sizeofNodeIdentifierKey, Int.mul_comm]
  rfl

/-- A size that is not negative is the byte size up to multiples of `2 ^ 32`. -/
theorem keysSize_of_nonneg {count : Int} (nonneg : 0 ≤ keysSize count) :
    28 * count % 2 ^ 32 < 2 ^ 31 ∧ keysSize count = 28 * count % 2 ^ 32 := by
  rw [keysSize_eq_ite] at nonneg ⊢
  split at nonneg
  · exact ⟨‹_›, if_pos ‹_›⟩
  · omega

/-- How an accepted connection ends. -/
inductive Accepted where
  | added (table : NodeTable NodeIdentifierKey) (nodeKey : NodeIdentifierKey)
  | alreadyExist
  | otherRequest

/-- `handleNewConnectionLocked` and `handleNewConnectionAfterLock` for a `newNode` request, as
far as they use the connection. -/
def addNewNode (o : ByteOrder) (table : NodeTable NodeIdentifierKey)
    (nodeKey : NodeIdentifierKey) (extraData : List UInt8) : Session Accepted :=
  match table.addNode? nodeKey with
  | none => .write [ReceiveRequest.nodeWithKeyAlreadyExist.code] (.done .alreadyExist)
  | some table' =>
      .write (sendInformationToNode o .toNewNodeAddPartitions (some extraData) none)
        (.done (.added table' nodeKey))

/-- `raft_connect_toAnyNode_newNode`, and the rest of the join after it. The address is the one
of the connection; an array whose size does not fit is undefined. -/
def raftConnectToAnyNodeNewNode (o : ByteOrder) (isEndianDiffer : Bool)
    (address : Block maxIp4Len) (table : NodeTable NodeIdentifierKey) : Session Accepted :=
  .read 4 fun port =>
    let nodeKey : NodeIdentifierKey :=
      ⟨receivedInt o isEndianDiffer port.bytes, address, isInt_wordInt _⟩
    .write (o.bytes (intWord (collectLeaderIndex table.record 0 (-1) table.nodes))) <|
    .write (o.bytes (intWord (nodesCount table.nodes))) <|
    if keysSize (nodesCount table.nodes) = table.nodes.length * sizeofNodeIdentifierKey then
      .write (imageOfKeys o table.nodes).bytes do
        let extraData ← receiveExtraData o isEndianDiffer
        addNewNode o table nodeKey extraData
    else .undefined

/-- `HandleNewConnectionPrivate` on a connection from an address, for a `newNode` request. -/
def handleNewConnectionPrivate (o : ByteOrder) (address : Block maxIp4Len)
    (table : NodeTable NodeIdentifierKey) : Session Accepted :=
  .write (endianMark o).bytes <|
  .read 4 fun request =>
    let (isEndianDiffer, request) := isEndianDifferAndRequest o (o.word request.bytes)
    if request = ConnectRequest.newNode.code then
      raftConnectToAnyNodeNewNode o isEndianDiffer address table
    else .done .otherRequest

/-- How an attempt to join ends. -/
inductive Joined where
  | joined (s : Members) (extraData : List UInt8)
  | failed
  | exited

/-- The loop of `TryFindClusterThredSafe` over the keys it received, from position `i` on. -/
def addReceived (leaderIndex : Int) : (i : ℕ) → List NodeIdentifierKey → Members → Members
  | _, [], s => s
  | i, key :: keys, s =>
      let s :=
        match s.table.addNode? key with
        | none => s
        | some table =>
            if (i : Int) = leaderIndex then
              { s with table := table.makeLeader key, leaderNode := some key }
            else { s with table := table }
      addReceived leaderIndex (i + 1) keys s

/-- `AddOwnNode`. -/
def addOwnNode (isLeader : Bool) (own : NodeIdentifierKey) (s : Members) : Members :=
  match s.thisNode with
  | some _ => s
  | none =>
      match s.table.addNode? own with
      | none => s
      | some table =>
          if isLeader then ⟨table.makeLeader own, some own, some own⟩
          else { s with table := table, thisNode := some own }

/-- `TryFindClusterThredSafe` from the answer of the adder on. -/
def confirmJoin (o : ByteOrder) (isEndianDiffer : Bool) (own : NodeIdentifierKey) (s : Members) :
    Session Joined :=
  .read 1 fun request =>
    if ReceiveRequest.ofCode (request.bytes.headD 0) = some .nodeWithKeyAlreadyExist then
      .done .exited
    else if ReceiveRequest.ofCode (request.bytes.headD 0) = some .toNewNodeAddPartitions then do
      let extraData ← receiveExtraData o isEndianDiffer
      .done (.joined (addOwnNode false own s) extraData)
    else .done .failed

/-- `TryFindClusterThredSafe` from the keys of the adder on. Writing a negative number of bytes
writes nothing and is taken for a failure. -/
def receiveNodes (o : ByteOrder) (isEndianDiffer : Bool) (own : NodeIdentifierKey)
    (extraData : List UInt8) (leaderIndex : Int) (count : ℕ) (s : Members) : Session Joined :=
  if keysSize count = count * sizeofNodeIdentifierKey then
    .read (count * sizeofNodeIdentifierKey) fun nodesInfo =>
      let s := addReceived leaderIndex 0 (receivedKeys o isEndianDiffer count nodesInfo)
        { s with leaderNode := none }
      .write (o.bytes (intWord (extraDataLen extraData))) <|
      .write (sentData extraData) <|
      if extraDataLen extraData < 0 then .done .failed else confirmJoin o isEndianDiffer own s
  else .undefined

/-- `TryFindClusterThredSafe` on a connection to the adder. -/
def tryFindClusterThredSafe (o : ByteOrder) (own : NodeIdentifierKey) (extraData : List UInt8)
    (s : Members) : Session Joined :=
  .read 2 fun remEndian =>
    let isEndianDiffer := decide (remEndian ≠ endianMark o)
    .write (o.bytes ConnectRequest.newNode.code) <|
    .write (o.bytes (intWord own.port)) <|
    .read 4 fun leaderIndex =>
    .read 4 fun count =>
      let leaderIndex := receivedInt o isEndianDiffer leaderIndex.bytes
      let count := receivedInt o isEndianDiffer count.bytes
      if count < 1 then .done .failed
      else receiveNodes o isEndianDiffer own extraData leaderIndex count.toNat s

section LeaderIndex

variable {record : NodeIdentifierKey → RaftNode} {keys : List NodeIdentifierKey}

/-- The index is the start value or the position of a node. -/
theorem collectLeaderIndex_range (record : NodeIdentifierKey → RaftNode) (i : ℕ)
    (leaderIndex : Int) (keys : List NodeIdentifierKey) :
    collectLeaderIndex record i leaderIndex keys = leaderIndex ∨
      (i : Int) ≤ collectLeaderIndex record i leaderIndex keys ∧
        collectLeaderIndex record i leaderIndex keys < i + keys.length := by
  induction keys generalizing i leaderIndex with
  | nil => exact Or.inl rfl
  | cons key keys ih =>
      rw [collectLeaderIndex, List.length_cons]
      by_cases leader : (record key).isLeader
      · have later := ih (i + 1) i
        rw [if_pos leader]
        exact Or.inr (by omega)
      · rw [if_neg leader]
        exact (ih (i + 1) leaderIndex).imp_right fun inside => by omega

/-- Without a node flagged as leader the index stays what it was. -/
theorem collectLeaderIndex_of_none (none : ∀ key ∈ keys, ¬(record key).isLeader) (i : ℕ)
    (leaderIndex : Int) : collectLeaderIndex record i leaderIndex keys = leaderIndex := by
  induction keys generalizing i leaderIndex with
  | nil => rfl
  | cons key keys ih =>
      obtain ⟨notLeader, others⟩ := List.forall_mem_cons.mp none
      rw [collectLeaderIndex, if_neg notLeader, ih others]

/-- The key at an index that counts from `i`. -/
def keyAt (leaderIndex : Int) (i : ℕ) (keys : List NodeIdentifierKey) :
    Option NodeIdentifierKey :=
  if (i : Int) ≤ leaderIndex then keys[(leaderIndex - i).toNat]? else none

/-- The key at the index of the first one. -/
theorem keyAt_cons_self (i : ℕ) (key : NodeIdentifierKey) (keys : List NodeIdentifierKey) :
    keyAt i i (key :: keys) = some key := by
  simp [keyAt]

/-- An index before the first one has no key. -/
theorem keyAt_self_succ (i : ℕ) (keys : List NodeIdentifierKey) : keyAt i (i + 1) keys = none :=
  if_neg (by omega)

/-- The keys before an index, counted from a position and from the one behind it. -/
theorem take_of_keyAt {leaderIndex : Int} {i : ℕ} {key : NodeIdentifierKey}
    {keys : List NodeIdentifierKey} (found : keyAt leaderIndex (i + 1) keys = some key)
    (first : NodeIdentifierKey) :
    (first :: keys).take (leaderIndex - i).toNat =
      first :: keys.take (leaderIndex - (i + 1 : ℕ)).toNat := by
  have next : ((i + 1 : ℕ) : Int) ≤ leaderIndex := by
    by_contra past
    rw [keyAt, if_neg past] at found
    cases found
  have position : (leaderIndex - i).toNat = (leaderIndex - (i + 1 : ℕ)).toNat + 1 := by omega
  rw [position, List.take_succ_cons]

/-- The key at any other index is among the rest. -/
theorem keyAt_cons_of_ne {leaderIndex : Int} {i : ℕ} (other : (i : Int) ≠ leaderIndex)
    (key : NodeIdentifierKey) (keys : List NodeIdentifierKey) :
    keyAt leaderIndex i (key :: keys) = keyAt leaderIndex (i + 1) keys := by
  unfold keyAt
  by_cases below : (i : Int) < leaderIndex
  · have next : ((i + 1 : ℕ) : Int) ≤ leaderIndex := by omega
    have position : (leaderIndex - i).toNat = (leaderIndex - (i + 1 : ℕ)).toNat + 1 := by omega
    rw [if_pos below.le, if_pos next, position, List.getElem?_cons_succ]
  · rw [if_neg (by omega), if_neg (by omega)]

/-- If at most one node is flagged, its key stands at the index. -/
theorem keyAt_collectLeaderIndex (distinct : keys.Nodup)
    (unique : ∀ k ∈ keys, ∀ k' ∈ keys, (record k).isLeader → (record k').isLeader → k = k')
    (i : ℕ) (leaderIndex : Int) (before : leaderIndex < i) :
    keyAt (collectLeaderIndex record i leaderIndex keys) i keys =
      keys.find? fun key => (record key).isLeader := by
  induction keys generalizing i leaderIndex with
  | nil => simp [keyAt]
  | cons key keys ih =>
      obtain ⟨fresh, distinct⟩ := List.nodup_cons.mp distinct
      have uniqueRest : ∀ k ∈ keys, ∀ k' ∈ keys,
          (record k).isLeader → (record k').isLeader → k = k' := fun k member k' member' =>
        unique k (List.mem_cons_of_mem _ member) k' (List.mem_cons_of_mem _ member')
      by_cases leader : (record key).isLeader
      · have none : ∀ k ∈ keys, ¬(record k).isLeader := by
          intro k member other
          have same := unique key List.mem_cons_self k (List.mem_cons_of_mem _ member) leader other
          exact fresh (same ▸ member)
        rw [collectLeaderIndex, if_pos leader, collectLeaderIndex_of_none none, keyAt_cons_self,
          List.find?_cons_of_pos (p := fun key => (record key).isLeader) leader]
      · have elsewhere : (i : Int) ≠ collectLeaderIndex record (i + 1) leaderIndex keys := by
          have range := collectLeaderIndex_range record (i + 1) leaderIndex keys
          omega
        rw [collectLeaderIndex, if_neg leader, keyAt_cons_of_ne elsewhere,
          ih distinct uniqueRest _ _ (by omega),
          List.find?_cons_of_neg (p := fun key => (record key).isLeader) leader]

end LeaderIndex

/-- A new key is appended to the table. -/
theorem addNode?_of_notMem {Node : Type} [DecidableEq Node] {table : NodeTable Node} {node : Node}
    (fresh : node ∉ table.nodes) :
    ∃ table', table.addNode? node = some table' ∧ table'.nodes = table.nodes ++ [node] :=
  ⟨_, dif_pos fresh, rfl⟩

section Shown

variable (o : ByteOrder) {t : ListspecialAndHashtbl} {table : NodeTable NodeIdentifierKey}

/-- The keys of the nodes of `m_Nodes`, traversed from `firstNode()`, are those of the table. -/
def ShowsKeys (t : ListspecialAndHashtbl) (table : NodeTable NodeIdentifierKey) : Prop :=
  ∃ m, t.Refines m ∧ m.keys = table.nodes.map fun key => (key.image o).bytes

/-- `AddNode` on the lists and chains of `m_Nodes` is `addNode?` on the keys, so the joins
below can be stated with keys only. -/
theorem ShowsKeys.addNode (shows : ShowsKeys o t table) (key : NodeIdentifierKey) {node : NodePtr}
    {item : ItemPtr} (freeNode : t.nodes node = none) (freeItem : t.items item = none)
    (room : t.count < maxCount) :
    match table.addNode? key with
    | none => t.addNode (key.image o).bytes node item = some (none, t)
    | some table' =>
        ∃ t', t.addNode (key.image o).bytes node item = some (some node, t') ∧
          ShowsKeys o t' table' := by
  obtain ⟨m, refines, keys⟩ := shows
  have listed : (key.image o).bytes ∈ m.keys ↔ key ∈ table.nodes := by
    rw [keys]
    exact List.mem_map_of_injective (NodeIdentifierKey.image_injective o)
  by_cases present : key ∈ table.nodes
  · rw [NodeTable.addNode?, dif_neg (not_not.mpr present)]
    exact refines.addNode_mem (listed.mpr present) node item
  · have absent := mt listed.mp present
    have short : (key.image o).bytes.length < 2 ^ 32 := by
      rw [(key.image o).sized]
      decide
    obtain ⟨t', added, refines'⟩ := refines.addNode_notMem absent short freeNode freeItem room
    rw [NodeTable.addNode?, dif_pos present]
    refine ⟨t', added, _, refines', ?_⟩
    rw [Store.OrderedMap.keys, m.entries_insert_of_notMem node absent, List.map_append,
      List.map_append]
    exact congrArg (· ++ _) keys

end Shown

/-- A pass over a key that is already in the table does nothing. -/
theorem addReceived_cons_of_mem (leaderIndex : Int) (i : ℕ) {key : NodeIdentifierKey}
    (keys : List NodeIdentifierKey) {s : Members} (listed : key ∈ s.table.nodes) :
    addReceived leaderIndex i (key :: keys) s = addReceived leaderIndex (i + 1) keys s := by
  rw [addReceived, NodeTable.addNode?, dif_neg (not_not_intro listed)]

/-- A pass over a new key adds it, and takes it for the leader at the leader index. -/
theorem addReceived_cons_of_notMem (leaderIndex : Int) (i : ℕ) {key : NodeIdentifierKey}
    (keys : List NodeIdentifierKey) {s : Members} (fresh : key ∉ s.table.nodes) :
    ∃ s', addReceived leaderIndex i (key :: keys) s = addReceived leaderIndex (i + 1) keys s' ∧
      s'.table.nodes = s.table.nodes ++ [key] ∧ s'.thisNode = s.thisNode ∧
      s'.leaderNode = if (i : Int) = leaderIndex then some key else s.leaderNode := by
  rw [addReceived, NodeTable.addNode?, dif_pos fresh]
  by_cases leader : (i : Int) = leaderIndex
  · simp only [if_pos leader]
    exact ⟨_, rfl, rfl, rfl, rfl⟩
  · simp only [if_neg leader]
    exact ⟨_, rfl, rfl, rfl, rfl⟩

/-- A listing does not set the own node. -/
theorem thisNode_addReceived (leaderIndex : Int) (i : ℕ) (keys : List NodeIdentifierKey)
    (s : Members) : (addReceived leaderIndex i keys s).thisNode = s.thisNode := by
  induction keys generalizing i s with
  | nil => rfl
  | cons key keys ih =>
      by_cases listed : key ∈ s.table.nodes
      · rw [addReceived_cons_of_mem _ _ _ listed, ih]
      · obtain ⟨s', pass, _, this, _⟩ := addReceived_cons_of_notMem leaderIndex i keys listed
        rw [pass, ih, this]

/-- A key that is listed adds nothing to the list. -/
private theorem mem_or_eq_or_iff {nodes : List NodeIdentifierKey} {key : NodeIdentifierKey}
    (listed : key ∈ nodes) (node : NodeIdentifierKey) (later : Prop) :
    (node ∈ nodes ∨ node = key ∨ later) ↔ node ∈ nodes ∨ later := by
  have covered : node = key → node ∈ nodes := fun same => same ▸ listed
  rw [← or_assoc, or_iff_left_of_imp covered]

/-- A listing adds its keys and nothing else. -/
theorem mem_addReceived (leaderIndex : Int) (i : ℕ) (keys : List NodeIdentifierKey)
    (s : Members) (node : NodeIdentifierKey) :
    node ∈ (addReceived leaderIndex i keys s).table.nodes ↔
      node ∈ s.table.nodes ∨ node ∈ keys := by
  induction keys generalizing i s with
  | nil => exact (or_iff_left List.not_mem_nil).symm
  | cons key keys ih =>
      rw [List.mem_cons]
      by_cases listed : key ∈ s.table.nodes
      · rw [addReceived_cons_of_mem _ _ _ listed, ih, mem_or_eq_or_iff listed]
      · obtain ⟨s', pass, nodes, _⟩ := addReceived_cons_of_notMem leaderIndex i keys listed
        rw [pass, ih, nodes, List.mem_append, List.mem_singleton, or_assoc]

/-- No leader is taken exactly if the key at the leader index, if there is one, was added
before: a repeated key is skipped together with its leadership. -/
theorem leaderNode_addReceived_eq_none_iff (leaderIndex : Int) (i : ℕ)
    (keys : List NodeIdentifierKey) (s : Members) :
    (addReceived leaderIndex i keys s).leaderNode = none ↔
      s.leaderNode = none ∧ ∀ key, keyAt leaderIndex i keys = some key →
        key ∈ s.table.nodes ∨ key ∈ keys.take (leaderIndex - i).toNat := by
  induction keys generalizing i s with
  | nil =>
      refine (and_iff_left fun key found => ?_).symm
      simp [keyAt] at found
  | cons first keys ih =>
      by_cases listed : first ∈ s.table.nodes
      · rw [addReceived_cons_of_mem _ _ _ listed, ih]
        refine and_congr_right fun _ => ?_
        by_cases leader : (i : Int) = leaderIndex
        · subst leader
          rw [keyAt_self_succ, keyAt_cons_self]
          refine iff_of_true (fun _ absurdity => nomatch absurdity) ?_
          rintro _ ⟨⟩
          exact Or.inl listed
        · rw [keyAt_cons_of_ne leader]
          refine forall_congr' fun key => imp_congr_right fun found => ?_
          rw [take_of_keyAt found, List.mem_cons, mem_or_eq_or_iff listed]
      · obtain ⟨s', pass, nodes, _, taken⟩ := addReceived_cons_of_notMem leaderIndex i keys listed
        rw [pass, ih, taken]
        by_cases leader : (i : Int) = leaderIndex
        · subst leader
          rw [if_pos rfl, keyAt_cons_self, Int.sub_self, Int.toNat_zero, List.take_zero]
          refine iff_of_false (fun free => nomatch free.1) fun free => ?_
          rcases free.2 first rfl with old | earlier
          · exact listed old
          · exact List.not_mem_nil earlier
        · rw [if_neg leader, keyAt_cons_of_ne leader]
          refine and_congr_right fun _ => forall_congr' fun key => imp_congr_right fun found => ?_
          rw [take_of_keyAt found, nodes, List.mem_append, List.mem_singleton, List.mem_cons,
            or_assoc]

/-- The loop adds the keys in order and takes the one at the leader index for the leader, if
the keys are new and distinct. -/
theorem addReceived_eq (leaderIndex : Int) (i : ℕ) {keys : List NodeIdentifierKey} {s : Members}
    (distinct : keys.Nodup) (fresh : ∀ key ∈ keys, key ∉ s.table.nodes) :
    (addReceived leaderIndex i keys s).table.nodes = s.table.nodes ++ keys ∧
      (addReceived leaderIndex i keys s).leaderNode =
        (keyAt leaderIndex i keys).or s.leaderNode ∧
      (addReceived leaderIndex i keys s).thisNode = s.thisNode := by
  induction keys generalizing i s with
  | nil => simp [addReceived, keyAt]
  | cons key keys ih =>
      obtain ⟨new, distinct⟩ := List.nodup_cons.mp distinct
      obtain ⟨freshKey, freshRest⟩ := List.forall_mem_cons.mp fresh
      obtain ⟨s', pass, nodes, this, leader⟩ :=
        addReceived_cons_of_notMem leaderIndex i keys freshKey
      have stillFresh : ∀ k ∈ keys, k ∉ s'.table.nodes := by
        intro k member
        rw [nodes, List.mem_append, List.mem_singleton]
        rintro (old | rfl)
        · exact freshRest k member old
        · exact new member
      obtain ⟨nodes', leaderNode, thisNode⟩ := ih (i + 1) distinct stillFresh
      rw [pass]
      refine ⟨?_, ?_, thisNode.trans this⟩
      · rw [nodes', nodes, List.append_assoc, List.singleton_append]
      · rw [leaderNode, leader]
        by_cases here : (i : Int) = leaderIndex
        · subst here
          rw [if_pos rfl, keyAt_self_succ, keyAt_cons_self, Option.none_or, Option.some_or]
        · rw [if_neg here, keyAt_cons_of_ne here]

/-- The connection of a joiner with the adder. -/
def joinExchange (o : ByteOrder) (own : NodeIdentifierKey) (extraData : List UInt8) (s : Members)
    (adder : NodeTable NodeIdentifierKey) : Exchange Joined Accepted where
  left := tryFindClusterThredSafe o own extraData s
  right := handleNewConnectionPrivate o own.ip4Address adder

/-- The index of the leader that the adder sends. -/
def leaderIndexOf (table : NodeTable NodeIdentifierKey) : Int :=
  collectLeaderIndex table.record 0 (-1) table.nodes

section Run

variable (o : ByteOrder) (own : NodeIdentifierKey) (extraData : List UInt8) (s : Members)
  {adder : NodeTable NodeIdentifierKey}

/-- The index of the leader fits the `int` that is sent. -/
theorem isInt_leaderIndexOf (few : adder.nodes.length * sizeofNodeIdentifierKey < 2 ^ 31) :
    IsInt (leaderIndexOf adder) := by
  rw [sizeofNodeIdentifierKey] at few
  have range := collectLeaderIndex_range adder.record 0 (-1) adder.nodes
  rw [leaderIndexOf]
  constructor <;> omega

/-- So does the number of nodes. -/
theorem isInt_length (few : adder.nodes.length * sizeofNodeIdentifierKey < 2 ^ 31) :
    IsInt adder.nodes.length := by
  rw [sizeofNodeIdentifierKey] at few
  constructor <;> omega

/-- The number that is sent is the number of nodes, as long as the size of the array does
not overflow. -/
theorem nodesCount_eq (few : adder.nodes.length * sizeofNodeIdentifierKey < 2 ^ 31) :
    nodesCount adder.nodes = adder.nodes.length :=
  wordInt_intWord (isInt_length few)

/-- Up to the leader index and the number of nodes, the sides only wait for each other, so
the exchange runs to that point in one way. -/
theorem joinExchange_reaches_listing
    (few : adder.nodes.length * sizeofNodeIdentifierKey < 2 ^ 31) :
    (joinExchange o own extraData s adder).Reaches
      ⟨if (adder.nodes.length : Int) < 1 then .done .failed
        else receiveNodes o false own extraData (leaderIndexOf adder) adder.nodes.length s,
        receiveExtraData o false >>= addNewNode o adder own, [],
        (imageOfKeys o adder.nodes).bytes⟩ := by
  have sameOrder : isEndianDifferAndRequest o (o.word (o.bytes ConnectRequest.newNode.code)) =
      (false, ConnectRequest.newNode.code) := by
    rw [o.word_bytes]
    rfl
  have index := isInt_leaderIndexOf few
  unfold joinExchange handleNewConnectionPrivate tryFindClusterThredSafe
  refine Exchange.reaches_right_write ?_
  refine Exchange.reaches_left_read (endianMark o) [] (List.append_nil _).symm ?_
  refine Exchange.reaches_left_write ?_
  refine Exchange.reaches_left_write ?_
  refine Exchange.reaches_right_read ⟨o.bytes ConnectRequest.newNode.code, o.length_bytes _⟩
    (o.bytes (intWord own.port)) rfl ?_
  simp only [sameOrder, ↓reduceIte, raftConnectToAnyNodeNewNode, ne_eq, not_true_eq_false,
    decide_false]
  refine Exchange.reaches_right_read ⟨o.bytes (intWord own.port), o.length_bytes _⟩ []
    (List.append_nil _).symm ?_
  simp only [receivedInt_same o own.portFits, nodesCount_eq few, keysSize_natCast few, ↓reduceIte]
  refine Exchange.reaches_right_write ?_
  refine Exchange.reaches_right_write ?_
  refine Exchange.reaches_right_write ?_
  refine Exchange.reaches_left_read ⟨o.bytes (intWord (leaderIndexOf adder)), o.length_bytes _⟩
    _ (List.append_assoc ..) ?_
  refine Exchange.reaches_left_read
    ⟨o.bytes (intWord adder.nodes.length), o.length_bytes _⟩ _ rfl ?_
  simp only [receivedInt_same o index, receivedInt_same o (isInt_length few), Int.toNat_natCast]
  exact .refl

/-- The membership of the joiner when it has added the keys of the adder. -/
def afterListing (adder : NodeTable NodeIdentifierKey) (s : Members) : Members :=
  addReceived (leaderIndexOf adder) 0 adder.nodes { s with leaderNode := none }

/-- The joiner adds the keys and sends its extra data, which the adder reads. -/
theorem receiveNodes_reaches_extraData
    (few : adder.nodes.length * sizeofNodeIdentifierKey < 2 ^ 31) :
    Exchange.Reaches
      ⟨receiveNodes o false own extraData (leaderIndexOf adder) adder.nodes.length s,
        receiveExtraData o false >>= addNewNode o adder own, [],
        (imageOfKeys o adder.nodes).bytes⟩
      ⟨if extraDataLen extraData < 0 then .done .failed
        else confirmJoin o false own (afterListing adder s),
        addNewNode o adder own (sentData extraData), [], []⟩ := by
  have listed : addReceived (leaderIndexOf adder) 0
      (receivedKeys o false adder.nodes.length (imageOfKeys o adder.nodes))
      { s with leaderNode := none } = afterListing adder s := by
    rw [receivedKeys_image]
    simp [afterListing]
  have read := runOn_receiveExtraData o extraData []
  rw [List.append_nil] at read
  rw [receiveNodes, if_pos (keysSize_natCast few)]
  refine Exchange.reaches_left_read (imageOfKeys o adder.nodes) [] (List.append_nil _).symm ?_
  refine Exchange.reaches_left_write ?_
  refine Exchange.reaches_left_write ?_
  rw [List.nil_append, if_congr Iff.rfl rfl (congrArg (confirmJoin o false own) listed)]
  exact Exchange.reaches_right_silent (addNewNode o adder own) read

/-- The adder adds the joiner and confirms; the joiner reads the confirmation and adds its
own node. -/
theorem confirmJoin_reaches_joined {table : NodeTable NodeIdentifierKey}
    (added : adder.addNode? own = some table) :
    Exchange.Reaches ⟨confirmJoin o false own s, addNewNode o adder own extraData, [], []⟩
      ⟨.done (.joined (addOwnNode false own s) (sentData extraData)), .done (.added table own), [],
        []⟩ := by
  have read := runOn_receiveExtraData o extraData []
  rw [List.append_nil] at read
  unfold addNewNode confirmJoin
  rw [added]
  refine Exchange.reaches_right_write ?_
  refine Exchange.reaches_left_read ⟨[ReceiveRequest.toNewNodeAddPartitions.code], rfl⟩
    (o.bytes (intWord (extraDataLen extraData)) ++ sentData extraData) rfl ?_
  have confirmed : ReceiveRequest.ofCode
      ([ReceiveRequest.toNewNodeAddPartitions.code].headD 0) =
        some ReceiveRequest.toNewNodeAddPartitions := rfl
  simp only [confirmed, Option.some.injEq, reduceCtorEq, ↓reduceIte]
  exact Exchange.reaches_left_silent
    (fun data => Session.done (Joined.joined (addOwnNode false own s) data)) read

/-- A join whose extra data has a size that is not negative succeeds. -/
theorem joinExchange_reaches_joined
    (few : adder.nodes.length * sizeofNodeIdentifierKey < 2 ^ 31) (nonempty : adder.nodes ≠ [])
    (fits : 0 ≤ extraDataLen extraData) {table : NodeTable NodeIdentifierKey}
    (added : adder.addNode? own = some table) :
    (joinExchange o own extraData s adder).Reaches
      ⟨.done (.joined (addOwnNode false own (afterListing adder s))
          (sentData (sentData extraData))),
        .done (.added table own), [], []⟩ := by
  have positive := List.length_pos_of_ne_nil nonempty
  have listing := joinExchange_reaches_listing o own extraData s few
  have exchanged := receiveNodes_reaches_extraData o own extraData s few
  rw [if_neg (by omega)] at listing
  rw [if_neg (not_lt.mpr fits)] at exchanged
  exact listing.trans (exchanged.trans (confirmJoin_reaches_joined o own _ _ added))

/-- A join that reached its end on both sides ended in the same state as this one, since an
exchange has one end. -/
theorem joined_eq (few : adder.nodes.length * sizeofNodeIdentifierKey < 2 ^ 31)
    {table : NodeTable NodeIdentifierKey} (added : adder.addNode? own = some table) {s' : Members}
    {data : List UInt8} {ended : Accepted} {toRight toLeft : List UInt8}
    (reached : (joinExchange o own extraData s adder).Reaches
      ⟨.done (.joined s' data), .done ended, toRight, toLeft⟩) :
    s' = addOwnNode false own (afterListing adder s) ∧ ended = .added table own := by
  have final : Exchange.Final (α := Joined) (β := Accepted)
      ⟨.done (.joined s' data), .done ended, toRight, toLeft⟩ := ⟨rfl, rfl⟩
  have notFailed : ∀ right toRight' toLeft',
      ¬(joinExchange o own extraData s adder).Reaches
        ⟨.done .failed, right, toRight', toLeft'⟩ := by
    intro right toRight' toLeft' failed
    cases (reached.confluent final failed).left_done rfl
  have listing := joinExchange_reaches_listing o own extraData s few
  by_cases empty : (adder.nodes.length : Int) < 1
  · rw [if_pos empty] at listing
    exact absurd listing (notFailed _ _ _)
  · rw [if_neg empty] at listing
    have exchanged := listing.trans (receiveNodes_reaches_extraData o own extraData s few)
    by_cases negative : extraDataLen extraData < 0
    · rw [if_pos negative] at exchanged
      exact absurd exchanged (notFailed _ _ _)
    · rw [if_neg negative] at exchanged
      have joined := exchanged.trans (confirmJoin_reaches_joined o own _ _ added)
      cases Exchange.Reaches.final_unique joined ⟨rfl, rfl⟩ reached final
      exact ⟨rfl, rfl⟩

end Run

/-- The members of the joiner in the end, if it started with an empty table: the keys of the
adder in order, and its own at the end. -/
theorem addOwnNode_afterListing {own : NodeIdentifierKey} {s : Members}
    {adder : NodeTable NodeIdentifierKey}
    (unique : ∀ k ∈ adder.nodes, ∀ k' ∈ adder.nodes,
      (adder.record k).isLeader → (adder.record k').isLeader → k = k')
    (fresh : own ∉ adder.nodes) (empty : s.table.nodes = [])
    (valid : ∀ node ∈ s.thisNode, node ∈ s.table.nodes) :
    (addOwnNode false own (afterListing adder s)).table.nodes = adder.nodes ++ [own] ∧
      (addOwnNode false own (afterListing adder s)).leaderNode =
        adder.nodes.find? fun key => (adder.record key).isLeader := by
  have noOwn : s.thisNode = none := by
    rw [empty] at valid
    exact Option.eq_none_iff_forall_not_mem.mpr fun node member =>
      List.not_mem_nil (valid node member)
  obtain ⟨nodes, leaderNode, thisNode⟩ :=
    addReceived_eq (leaderIndexOf adder) 0 (s := { s with leaderNode := none }) adder.distinct
      fun key _ => empty ▸ List.not_mem_nil
  rw [leaderIndexOf, keyAt_collectLeaderIndex adder.distinct unique 0 (-1) (by decide),
    Option.or_none] at leaderNode
  have listed : (afterListing adder s).table.nodes = adder.nodes := by
    rw [afterListing, nodes, empty, List.nil_append]
  obtain ⟨table, added, nodes'⟩ := addNode?_of_notMem (listed ▸ fresh)
  have noOwn' : (afterListing adder s).thisNode = none := thisNode.trans noOwn
  simp only [addOwnNode, noOwn', added, Bool.false_eq_true, ↓reduceIte]
  exact ⟨by rw [nodes', listed], leaderNode⟩

/-- A join that succeeds gives the joiner the keys of the adder in the order of the adder and its
own behind them, with the leader of the adder as leader, and gives the adder the key of the
joiner. With a nonempty table and extra data of a fitting size, no turn prevents the success. -/
theorem join_reproduces_members (o : ByteOrder) (own : NodeIdentifierKey)
    (extraData : List UInt8) (s : Members) (adder : NodeTable NodeIdentifierKey)
    (few : adder.nodes.length * sizeofNodeIdentifierKey < 2 ^ 31)
    (unique : ∀ k ∈ adder.nodes, ∀ k' ∈ adder.nodes,
      (adder.record k).isLeader → (adder.record k').isLeader → k = k')
    (fresh : own ∉ adder.nodes) (empty : s.table.nodes = [])
    (valid : ∀ node ∈ s.thisNode, node ∈ s.table.nodes) :
    (∀ s' data table key toRight toLeft,
      (joinExchange o own extraData s adder).Reaches
          ⟨.done (.joined s' data), .done (.added table key), toRight, toLeft⟩ →
        s'.table.nodes = adder.nodes ++ [own] ∧
          s'.leaderNode = (adder.nodes.find? fun key => (adder.record key).isLeader) ∧
          table.nodes = adder.nodes ++ [own]) ∧
      (adder.nodes ≠ [] → 0 ≤ extraDataLen extraData →
        ∃ s' data table, ∀ x, (joinExchange o own extraData s adder).Reaches x →
          x.Reaches ⟨.done (.joined s' data), .done (.added table own), [], []⟩) := by
  obtain ⟨table, added, nodes⟩ := addNode?_of_notMem fresh
  obtain ⟨joined, leader⟩ := addOwnNode_afterListing unique fresh empty valid
  constructor
  · intro s' data table' key toRight toLeft reached
    obtain ⟨rfl, same⟩ := joined_eq o own extraData s few added reached
    cases same
    exact ⟨joined, leader, nodes⟩
  · intro nonempty fits
    have success := joinExchange_reaches_joined o own extraData s few nonempty fits added
    exact ⟨_, _, table, fun x reached => success.confluent ⟨rfl, rfl⟩ reached⟩

/-- A cluster of one node. -/
def loneLeader (key : NodeIdentifierKey) : NodeTable NodeIdentifierKey :=
  ⟨[key], List.nodup_singleton key, fun _ => { isLeader := true }⟩

/-- The key with this port on the machine of the zero key. -/
def NodeIdentifierKey.ofPort (port : UInt32) : NodeIdentifierKey :=
  ⟨wordInt port, NodeIdentifierKey.zero.ip4Address, isInt_wordInt port⟩

/-- A second node joins a cluster of one: both have the two nodes in the same order, and the
leader. -/
theorem join_reproduces_members_loneLeader :
    ∃ s' data table,
      (joinExchange .little (.ofPort 1) [7] unjoined (loneLeader .zero)).Reaches
          ⟨.done (.joined s' data), .done (.added table (.ofPort 1)), [], []⟩ ∧
        s'.table.nodes = [.zero, .ofPort 1] ∧ s'.leaderNode = some .zero ∧
        table.nodes = [.zero, .ofPort 1] := by
  have few : (loneLeader .zero).nodes.length * sizeofNodeIdentifierKey < 2 ^ 31 := by decide
  have unique : ∀ k ∈ (loneLeader .zero).nodes, ∀ k' ∈ (loneLeader .zero).nodes,
      ((loneLeader .zero).record k).isLeader → ((loneLeader .zero).record k').isLeader → k = k' :=
    fun k member k' member' _ _ =>
      (List.mem_singleton.mp member).trans (List.mem_singleton.mp member').symm
  have fresh : NodeIdentifierKey.ofPort 1 ∉ (loneLeader .zero).nodes := by decide
  have join := join_reproduces_members .little (.ofPort 1) [7] unjoined (loneLeader .zero) few
    unique fresh rfl fun _ member => nomatch member
  obtain ⟨s', data, table, success⟩ := join.2 (List.cons_ne_nil _ _) (by decide)
  have joined := success _ .refl
  exact ⟨s', data, table, joined, join.1 _ _ _ _ _ _ joined⟩

end Tcp

end CppRaft
