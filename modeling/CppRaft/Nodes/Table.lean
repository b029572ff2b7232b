import Mathlib.Algebra.Group.Int.Defs
import Mathlib.Algebra.Group.Nat.Defs
import CppRaft.Machine.Trace
import CppRaft.Store.Linked

/-!
# The node table

`m_Nodes` keeps every node in two intrusive structures: a doubly linked list in
insertion order (`ListSpecial`) and a hash table whose chains grow at the head
(`HashTbl`). A hash item owns a copy of its key, and the node points to that copy.

Memory is explicit. A pointer that is not allocated is not followed, and an
allocation yields memory that is not in use. `size_t` has 64 bits.
-/

namespace CppRaft

open Machine Store

/-- A node key: a block of bytes with its length. -/
abbrev Key : Type := List UInt8

/-- The internal state of `hash1_`. -/
structure HashState where
  a : UInt64
  b : UInt64
  c : UInt64

/-- One line of the mixing step. -/
def mixLine (x y z shifted : UInt64) : UInt64 :=
  (x - y - z) ^^^ shifted

/-- `mix2`. -/
def mix2 (s : HashState) : HashState :=
  let a := mixLine s.a s.b s.c (s.c >>> 13)
  let b := mixLine s.b s.c a (a <<< 8)
  let c := mixLine s.c a b (b >>> 13)
  let a := mixLine a b c (c >>> 12)
  let b := mixLine b c a (a <<< 16)
  let c := mixLine c a b (b >>> 5)
  let a := mixLine a b c (c >>> 3)
  let b := mixLine b c a (a <<< 10)
  let c := mixLine c a b (b >>> 15)
  ⟨a, b, c⟩

/-- Four bytes as a word, the first one lowest. -/
def hashWord (k₀ k₁ k₂ k₃ : UInt8) : UInt64 :=
  k₀.toUInt64 + (k₁.toUInt64 <<< 8) + (k₂.toUInt64 <<< 16) + (k₃.toUInt64 <<< 24)

/-- The loop of `hash1_` over blocks of twelve bytes; what is left of the key has fewer. -/
def hashBlocks : HashState → List UInt8 → HashState × List UInt8
  | s, k₀ :: k₁ :: k₂ :: k₃ :: k₄ :: k₅ :: k₆ :: k₇ :: k₈ :: k₉ :: k₁₀ :: k₁₁ :: rest =>
      hashBlocks
        (mix2 ⟨s.a + hashWord k₀ k₁ k₂ k₃, s.b + hashWord k₄ k₅ k₆ k₇,
          s.c + hashWord k₈ k₉ k₁₀ k₁₁⟩)
        rest
  | s, rest => (s, rest)

/-- The last bytes of a key; the lowest byte of the third word is reserved for the length. -/
def hashTail (keySize : ℕ) (s : HashState) (k : List UInt8) : HashState :=
  let byte := fun i => k.getD i 0
  mix2
    ⟨s.a + hashWord (byte 0) (byte 1) (byte 2) (byte 3),
      s.b + hashWord (byte 4) (byte 5) (byte 6) (byte 7),
      s.c + UInt64.ofNat keySize + hashWord 0 (byte 8) (byte 9) (byte 10)⟩

/-- `hash1_`. -/
def hash1 (key : Key) : UInt64 :=
  let (s, rest) := hashBlocks ⟨0x9e3779b9, 0x9e3779b9, 13⟩ key
  (hashTail key.length s rest).c

/-- The address of a node. -/
abbrev NodePtr : Type := ℕ

/-- The address of a hash item. -/
abbrev ItemPtr : Type := ℕ

/-- The key fields of a `RaftNode2`. The key points into the hash item that owns it. -/
structure NodeKey where
  key : Option ItemPtr := none
  keyLength : ℕ := 0
  deriving DecidableEq, Repr

/-- What a `HashItem` carries: a copy of the key, with its length, and the data. -/
structure Common.HashEntry (D : Type) where
  key : Key
  data : D
  deriving DecidableEq, Repr

/-- What an item of the node table carries. -/
abbrev HashItem : Type := Common.HashEntry NodePtr

/-- `ListspecialAndHashtbl<RaftNode2*>` with the memory it lives in. -/
structure ListspecialAndHashtbl where
  nodes : Heap NodePtr NodeKey := fun _ => none
  items : Heap ItemPtr HashItem := fun _ => none
  table : ℕ → Option ItemPtr := fun _ => none
  first : Option NodePtr := none
  last : Option NodePtr := none
  count : Int := 0

/-- `m_unRoundedTableSizeMin1` of a table of `DEFAULT_TABLE_SIZE` chains. -/
def tableSizeMin1 : UInt64 := 63

/-- The chain a key belongs to. -/
def unHash (key : Key) : ℕ :=
  (hash1 key &&& tableSizeMin1).toNat

/-- The largest `int`. -/
def maxCount : Int := 2 ^ 31 - 1

/-- The length that a cast to `uint32_t` leaves. -/
def castLength (length : ℕ) : ℕ :=
  length % 2 ^ 32

/-- The part of a key that its cast length covers. -/
def castKey (key : Key) : Key :=
  key.take (castLength key.length)

namespace ListspecialAndHashtbl

/-- A bound for every loop over the table: each chain and the list have fewer cells. -/
def bound (t : ListspecialAndHashtbl) : ℕ :=
  t.count.toNat + 1

/-- The item of a chain with this key: the same length and the same bytes. -/
def findItem (key : Key) (t : ListspecialAndHashtbl) : Option (Option ItemPtr) :=
  t.items.search (fun item => decide (item.key = key)) t.bound (t.table (unHash key))

/-- `HashTbl::FindEntry`. -/
def findEntry (key : Key) (t : ListspecialAndHashtbl) : Option (Option NodePtr) := do
  match ← t.findItem key with
  | none => pure none
  | some item =>
      let cell ← t.items item
      pure (some cell.data.data)

/-- `HashTbl::AddEntry2` with the item it allocates. -/
def addEntry2 (item : ItemPtr) (key : Key) (data : NodePtr) (t : ListspecialAndHashtbl) :
    Option ListspecialAndHashtbl := do
  let items := t.items.alloc item ⟨none, none, ⟨key, data⟩⟩
  let items ← items.setNext (some item) (t.table (unHash key))
  let items ← items.setPrev (t.table (unHash key)) (some item)
  pure { t with items := items, table := Function.update t.table (unHash key) (some item) }

/-- `HashTbl::RemoveEntry2`. The destructor of the item links its neighbours once more. -/
def removeEntry2 (key : Key) (t : ListspecialAndHashtbl) :
    Option (Bool × ListspecialAndHashtbl) := do
  match ← t.findItem key with
  | none => pure (false, t)
  | some item =>
      let cell ← t.items item
      let table :=
        if some item = t.table (unHash key) then Function.update t.table (unHash key) cell.next
        else t.table
      let items ← t.items.unlink item
      let items ← items.unlink item
      pure (true, { t with items := items.free item, table := table })

/-- `ListSpecial::AddDataRaw`. The counter is an `int`: incrementing its largest value is
undefined. -/
def addDataRaw (node : NodePtr) (t : ListspecialAndHashtbl) : Option ListspecialAndHashtbl := do
  let nodes ← t.nodes.write node fun cell => { cell with prev := t.last, next := none }
  let count ← if t.count < maxCount then some (t.count + 1) else none
  match t.first with
  | none => pure { t with nodes := nodes, first := some node, last := some node, count := count }
  | some _ =>
      let nodes ← nodes.assignNext t.last (some node)
      pure { t with nodes := nodes, last := some node, count := count }

/-- `ListSpecial::RemoveDataRaw`; it returns the successor of the node. -/
def removeDataRaw (node : NodePtr) (t : ListspecialAndHashtbl) :
    Option (Option NodePtr × ListspecialAndHashtbl) := do
  let nodes ← t.nodes.unlink node
  let cell ← nodes node
  let first := if some node = t.first then cell.next else t.first
  let last := if some node = t.last then cell.prev else t.last
  pure (cell.next, { t with nodes := nodes, first := first, last := last, count := t.count - 1 })

/-- `ListspecialAndHashtbl::AddData`, which casts the length of the key. -/
def addData (node : NodePtr) (item : ItemPtr) (key : Key) (t : ListspecialAndHashtbl) :
    Option (Bool × ListspecialAndHashtbl) := do
  match ← t.findEntry (castKey key) with
  | some _ => pure (false, t)
  | none =>
      let t ← t.addDataRaw node
      let t ← t.addEntry2 item (castKey key) node
      let nodes ← t.nodes.write node fun cell => { cell with data := ⟨some item, key.length⟩ }
      pure (true, { t with nodes := nodes })

/-- The first `length` bytes behind the key of a node. Reading beyond the block is undefined. -/
def keyBytes (key : Option ItemPtr) (length : ℕ) (t : ListspecialAndHashtbl) : Option Key := do
  match key with
  | none => if length = 0 then pure [] else none
  | some item =>
      let cell ← t.items item
      if length ≤ cell.data.key.length then pure (cell.data.key.take length) else none

/-- `ListspecialAndHashtbl::RemoveData` of a node, which casts the length of its key. -/
def removeData (node : NodePtr) (t : ListspecialAndHashtbl) :
    Option (Option NodePtr × ListspecialAndHashtbl) := do
  let cell ← t.nodes node
  let key ← t.keyBytes cell.data.key (castLength cell.data.keyLength)
  let (removed, t) ← t.removeEntry2 key
  if removed then t.removeDataRaw node else pure (none, t)

/-- `delete` of a node. -/
def deleteNode (node : NodePtr) (t : ListspecialAndHashtbl) : Option ListspecialAndHashtbl := do
  let _ ← t.nodes node
  pure { t with nodes := t.nodes.free node }

/-- `RaftServer::FindNode`. -/
def findNode (key : Key) (t : ListspecialAndHashtbl) : Option (Option NodePtr) :=
  t.findEntry key

/-- `RaftServer::AddNode` with the memory it allocates. -/
def addNode (key : Key) (node : NodePtr) (item : ItemPtr) (t : ListspecialAndHashtbl) :
    Option (Option NodePtr × ListspecialAndHashtbl) := do
  match ← t.findEntry key with
  | some _ => pure (none, t)
  | none =>
      let t := { t with nodes := t.nodes.alloc node ⟨none, none, {}⟩ }
      let (_, t) ← t.addData node item key
      pure (some node, t)

/-- `RaftServer::RemoveNode1` of a node that no job refers to. -/
def removeNode1 (key : Key) (t : ListspecialAndHashtbl) : Option ListspecialAndHashtbl := do
  match ← t.findEntry key with
  | none => pure t
  | some node =>
      let (_, t) ← t.removeData node
      t.deleteNode node

/-- `RaftServer::RemoveNode2`. -/
def removeNode2 (node : NodePtr) (t : ListspecialAndHashtbl) : Option ListspecialAndHashtbl := do
  let cell ← t.nodes node
  let key ← t.keyBytes cell.data.key cell.data.keyLength
  t.removeNode1 key

/-- The loop of `RaftServer::ClearAllNodes` from a node on. -/
def clearFrom : (bound : ℕ) → Option NodePtr → ListspecialAndHashtbl →
    Option ListspecialAndHashtbl
  | _, none, t => some t
  | 0, some _, _ => none
  | bound + 1, some node, t => do
      let (next, t) ← t.removeData node
      let t ← t.deleteNode node
      clearFrom bound next t

/-- `RaftServer::ClearAllNodes`. -/
def clearAllNodes (t : ListspecialAndHashtbl) : Option ListspecialAndHashtbl :=
  clearFrom t.bound t.first t

/-- The nodes from `firstNode()` along `next`. -/
def forward (t : ListspecialAndHashtbl) : Option (List NodePtr) :=
  t.nodes.walk Cell.next t.bound t.first

/-- The nodes from the last one along `prev`. -/
def backward (t : ListspecialAndHashtbl) : Option (List NodePtr) :=
  t.nodes.walk Cell.prev t.bound t.last

end ListspecialAndHashtbl

/-- A call on the node table, with the memory that an allocation in it yields. -/
inductive TableCall where
  | addNode (key : Key) (node : NodePtr) (item : ItemPtr)
  | removeNode1 (key : Key)
  | removeNode2 (node : NodePtr)
  | clearAllNodes
  deriving DecidableEq, Repr

namespace ListspecialAndHashtbl

/-- The node a call returns and the table it leaves. -/
def call : TableCall → ListspecialAndHashtbl → Option (Option NodePtr × ListspecialAndHashtbl)
  | .addNode key node item, t =>
      if t.nodes node = none ∧ t.items item = none then t.addNode key node item else none
  | .removeNode1 key, t => (t.removeNode1 key).map fun t => (none, t)
  | .removeNode2 node, t => (t.removeNode2 node).map fun t => (none, t)
  | .clearAllNodes, t => t.clearAllNodes.map fun t => (none, t)

/-- The node table as a machine that emits what its calls return. -/
def machine : Machine ListspecialAndHashtbl TableCall (Option NodePtr) where
  step := fun t event => (t.call event).map fun (result, t) => ⟨t, [result]⟩

end ListspecialAndHashtbl

end CppRaft
