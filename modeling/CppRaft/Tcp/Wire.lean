import CppRaft.Machine.Session

/-!
# What goes over a socket

Request codes, node keys and 32-bit fields as they stand in the memory of the
machine that writes them, and how a machine of either byte order reads them.
-/

namespace CppRaft

namespace Tcp

open Machine

/-- The requests of `raft::connect`, sent as a `uint32_t` when a connection is made. -/
inductive ConnectRequest where
  | newNode
  | permanentBridge
  | otherLeaderFound
  | toLeaderInit
  | toFollowerInit
  | allNodesInfo
  | ping
  | startTime
  deriving DecidableEq, Repr

def ConnectRequest.code : ConnectRequest → UInt32
  | newNode => 1
  | permanentBridge => 2
  | otherLeaderFound => 3
  | toLeaderInit => 4
  | toFollowerInit => 5
  | allNodesInfo => 6
  | ping => 7
  | startTime => 8

/-- The requests of `raft::response` and `raft::receive`, sent as a `char` between nodes. -/
inductive ReceiveRequest where
  | ok
  | clbkCmd
  | resetPing
  | removeNode
  | newNode
  | toNewNodeAddPartitions
  | nodeWithKeyAlreadyExist
  | oldLeaderDied
  deriving DecidableEq, Repr

def ReceiveRequest.code : ReceiveRequest → UInt8
  | ok => 0
  | clbkCmd => 9
  | resetPing => 10
  | removeNode => 11
  | newNode => 12
  | toNewNodeAddPartitions => 13
  | nodeWithKeyAlreadyExist => 14
  | oldLeaderDied => 15

/-- `raft_swap_4_bytes`, on the bytes of its argument by address. -/
def raftSwap4Bytes (vector : List UInt8) : List UInt8 :=
  let temp := vector.getD 0 0
  let vector := vector.set 0 (vector.getD 3 0)
  let vector := vector.set 0 temp
  let temp := vector.getD 1 0
  let vector := vector.set 1 (vector.getD 2 0)
  vector.set 2 temp

/-- `SWAP4BYTES` of a variable. -/
def swap4Bytes (o : ByteOrder) (w : UInt32) : UInt32 :=
  o.word (raftSwap4Bytes (o.bytes w))

/-- `MAX_REQUEST_NUMBER_PRVT`. -/
def maxRequestNumberPrvt : UInt32 := 0xffff

/-- `IS_ENDIAN_DIFFER_AND_REQUEST`: its value, and the request it leaves in its argument. -/
def isEndianDifferAndRequest (o : ByteOrder) (request : UInt32) : Bool × UInt32 :=
  if request < maxRequestNumberPrvt then (false, request) else (true, swap4Bytes o request)

/-- A 32-bit field that was read, swapped if the ends differ in byte order. -/
def receivedWord (o : ByteOrder) (isEndianDiffer : Bool) (bytes : List UInt8) : UInt32 :=
  if isEndianDiffer then swap4Bytes o (o.word bytes) else o.word bytes

/-- The same for an `int` field. -/
def receivedInt (o : ByteOrder) (isEndianDiffer : Bool) (bytes : List UInt8) : Int :=
  wordInt (receivedWord o isEndianDiffer bytes)

@[simp] theorem receivedWord_same (o : ByteOrder) (w : UInt32) :
    receivedWord o false (o.bytes w) = w :=
  o.word_bytes w

/-- Between machines of one byte order an `int` arrives as it was sent. -/
theorem receivedInt_same (o : ByteOrder) {i : Int} (fits : IsInt i) :
    receivedInt o false (o.bytes (intWord i)) = i := by
  rw [receivedInt, receivedWord_same, wordInt_intWord fits]

/-- Read an `int` field from a socket. -/
def readInt (o : ByteOrder) (isEndianDiffer : Bool) : Session Int :=
  .read 4 fun block => .done (receivedInt o isEndianDiffer block.bytes)

/-- An `int` from a machine of the same byte order is read as it was written. -/
theorem runOn_readInt_bind {α : Type} (o : ByteOrder) {i : Int} (fits : IsInt i)
    (after : Int → Session α) (rest : List UInt8) :
    (readInt o false >>= after).runOn (o.bytes (intWord i) ++ rest) = (after i).runOn rest := by
  have first := Session.runOn_read (fun block : Block 4 => after (receivedInt o false block.bytes))
    ⟨o.bytes (intWord i), o.length_bytes _⟩ rest
  simp only [receivedInt_same o fits] at first
  exact first

/-- The `size_t` that an `int` is converted to. -/
def sizeT (i : Int) : ℕ :=
  (i % 2 ^ 64).toNat

/-- What `readC` returns, the buffer after it and what is left of the stream. -/
structure BufferRead (n : ℕ) where
  returned : Int
  buffer : Option (Block n)
  unread : List UInt8

/-- `readC` on a connection that delivers `stream` and closes. `recv` takes all the bytes that it
is asked for or what there is of them. With `NULL` for a buffer it fails unless it is asked for
none; a byte behind the buffer has no place. -/
def readC {n : ℕ} (buffer : Option (Block n)) (nSize : Int) (stream : List UInt8) :
    Option (BufferRead n) :=
  match buffer with
  | none => some ⟨if sizeT nSize = 0 then 0 else -1, none, stream⟩
  | some block =>
      let front := stream.take (sizeT nSize)
      if fits : front.length ≤ n then
        some ⟨front.length, some (block.fill front fits), stream.drop (sizeT nSize)⟩
      else none

/-- A size that is not negative is asked for. -/
theorem readC_of_nonneg {n : ℕ} (block : Block n) {size : ℕ} (small : size < 2 ^ 64)
    (stream : List UInt8) (fits : (stream.take size).length ≤ n) :
    readC (some block) size stream =
      some ⟨(stream.take size).length, some (block.fill (stream.take size) fits),
        stream.drop size⟩ := by
  have asked : sizeT size = size := by
    rw [sizeT]
    omega
  simp only [readC, asked, dif_pos fits]

/-- A negative size is taken for a huge one: all of the stream is read if there is room for it. -/
theorem readC_of_neg {n : ℕ} (block : Block n) {size : Int} (negative : size < 0)
    (fits : IsInt size) (few : n < 2 ^ 63) (stream : List UInt8) :
    (stream.length ≤ n →
      ∃ buffer, readC (some block) size stream = some ⟨stream.length, some buffer, []⟩) ∧
    (¬ stream.length ≤ n → readC (some block) size stream = none) := by
  obtain ⟨low, -⟩ := fits
  have huge : 2 ^ 63 ≤ sizeT size := by
    rw [sizeT]
    omega
  constructor
  · intro room
    have whole : stream.take (sizeT size) = stream := List.take_of_length_le (by omega)
    have nothing : stream.drop (sizeT size) = [] := List.drop_eq_nil_of_le (by omega)
    refine ⟨block.fill stream room, ?_⟩
    simp only [readC, whole, nothing, dif_pos room]
  · intro outside
    have more : ¬ (stream.take (sizeT size)).length ≤ n := by
      rw [List.length_take]
      omega
    simp only [readC, dif_neg more]

/-- `MAX_IP4_LEN`. -/
def maxIp4Len : ℕ := 24

/-- `sizeof(NodeIdentifierKey)`. -/
def sizeofNodeIdentifierKey : ℕ := 28

/-- `NodeIdentifierKey`. -/
@[ext] structure NodeIdentifierKey where
  port : Int
  ip4Address : Block maxIp4Len
  portFits : IsInt port
  deriving DecidableEq

namespace NodeIdentifierKey

private theorem length_image (o : ByteOrder) (key : NodeIdentifierKey) :
    (o.bytes (intWord key.port) ++ key.ip4Address.bytes).length = sizeofNodeIdentifierKey := by
  rw [List.length_append, o.length_bytes, key.ip4Address.sized]
  rfl

private theorem length_address (block : Block sizeofNodeIdentifierKey) :
    (block.bytes.drop 4).length = maxIp4Len := by
  rw [List.length_drop, block.sized]
  rfl

/-- A key in the memory of a machine. -/
def image (o : ByteOrder) (key : NodeIdentifierKey) : Block sizeofNodeIdentifierKey :=
  ⟨o.bytes (intWord key.port) ++ key.ip4Address.bytes, length_image o key⟩

/-- The key in a block that was read, with its port swapped if the ends differ. -/
def received (o : ByteOrder) (isEndianDiffer : Bool) (block : Block sizeofNodeIdentifierKey) :
    NodeIdentifierKey where
  port := receivedInt o isEndianDiffer (block.bytes.take 4)
  ip4Address := ⟨block.bytes.drop 4, length_address block⟩
  portFits := isInt_wordInt _

/-- The port of a key that arrives; the address is bytes and is never swapped. -/
theorem port_received_image (o sender : ByteOrder) (isEndianDiffer : Bool)
    (key : NodeIdentifierKey) :
    (received o isEndianDiffer (key.image sender)).port =
      receivedInt o isEndianDiffer (sender.bytes (intWord key.port)) :=
  congrArg (receivedInt o isEndianDiffer) (List.take_left' (sender.length_bytes _))

/-- A key arrives as it was sent exactly if its port does. -/
theorem received_image_eq_iff (o sender : ByteOrder) (isEndianDiffer : Bool)
    (key : NodeIdentifierKey) :
    received o isEndianDiffer (key.image sender) = key ↔
      receivedInt o isEndianDiffer (sender.bytes (intWord key.port)) = key.port := by
  rw [NodeIdentifierKey.ext_iff, port_received_image]
  refine and_iff_left (Block.ext ?_)
  exact List.drop_left' (sender.length_bytes _)

@[simp] theorem received_image (o : ByteOrder) (key : NodeIdentifierKey) :
    received o false (key.image o) = key :=
  (received_image_eq_iff o o false key).mpr (receivedInt_same o key.portFits)

/-- Different keys have different images, so a comparison of the bytes is one of the keys. -/
theorem image_injective (o : ByteOrder) :
    Function.Injective fun key : NodeIdentifierKey => (key.image o).bytes := fun key key' same => by
  rw [← received_image o key, ← received_image o key', Block.ext same]

/-- The key whose bytes are all zero. -/
def zero : NodeIdentifierKey where
  port := 0
  ip4Address := ⟨List.replicate maxIp4Len 0, List.length_replicate⟩
  portFits := isInt_wordInt 0

end NodeIdentifierKey

/-- `nodesCount()` of a table with these keys, an `int`. -/
def nodesCount (keys : List NodeIdentifierKey) : Int :=
  wordInt (intWord keys.length)

/-- The keys in an array that was read, with their ports swapped if the ends differ. -/
def receivedKeys (o : ByteOrder) (isEndianDiffer : Bool) (count : ℕ)
    (nodesInfo : Block (count * sizeofNodeIdentifierKey)) : List NodeIdentifierKey :=
  (Block.records sizeofNodeIdentifierKey count nodesInfo).map
    (NodeIdentifierKey.received o isEndianDiffer)

/-- An array of keys in the memory of a machine. -/
def imageOfKeys (o : ByteOrder) (keys : List NodeIdentifierKey) :
    Block (keys.length * sizeofNodeIdentifierKey) where
  bytes := Block.flatten (keys.map (NodeIdentifierKey.image o))
  sized := (Block.length_flatten _).trans (congrArg (· * _) (List.length_map _))

/-- The keys of a listing arrive one by one, in the order of the listing; whether each is
right is a matter of its port. -/
theorem receivedKeys_image (o sender : ByteOrder) (isEndianDiffer : Bool)
    (keys : List NodeIdentifierKey) :
    receivedKeys o isEndianDiffer keys.length (imageOfKeys sender keys) =
      keys.map fun key => NodeIdentifierKey.received o isEndianDiffer (key.image sender) := by
  rw [receivedKeys, Block.records_flatten (keys.map (NodeIdentifierKey.image sender))
    (List.length_map _) _ rfl, List.map_map]
  rfl

end Tcp

end CppRaft
