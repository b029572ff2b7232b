import CppRaft.Tcp.Attempt

/-!
# The client

`Client::ReceiveAllNodes` asks a server for its nodes and returns the index of the leader, or `-1`.
Three things come between the announced number of nodes and the vector: the swap of a field from a
machine of the other byte order, the byte size of the array, which is cut to 32 bits, and the
`resize` of the vector, whose exception is caught right before the statement that sets the value to
return.
-/

namespace CppRaft

namespace Tcp

open Machine

/-- What a server sends before the nodes. -/
@[ext] structure NodesHeader where
  mark : Block 2
  nodesCount : Block 4
  leaderIndex : Block 4

namespace NodesHeader

variable (o : ByteOrder) (header : NodesHeader)

def bytes : List UInt8 :=
  header.mark.bytes ++ (header.nodesCount.bytes ++ header.leaderIndex.bytes)

/-- The server has the other byte order. -/
def isEndianDiffer : Bool :=
  decide (header.mark ≠ endianMark o)

/-- The number of nodes that is announced, in the byte order of the server. -/
def announced : Int :=
  wordInt ((if header.isEndianDiffer o then o.other else o).word header.nodesCount.bytes)

/-- `nl.nodesCount`. -/
def count : Int :=
  receivedInt o (header.isEndianDiffer o) header.nodesCount.bytes

/-- `nl.leaderIndex`. -/
def leader : Int :=
  receivedInt o (header.isEndianDiffer o) header.leaderIndex.bytes

end NodesHeader

/-- What `ReceiveAllNodes` returns, the vector after it and what is left of the stream. -/
structure NodesReply where
  nReturn : Int
  nodes : List NodeIdentifierKey
  unread : List UInt8
  deriving DecidableEq

/-- `ConnectAndGetEndian2` on a connection that delivers `stream`, with what `connectC` and
`writeC` report: whether the byte orders differ; `none` for the failure it returns. -/
def connectAndGetEndian2 (o : ByteOrder) (connects wrote : Bool) (stream : List UInt8) :
    Option (Bool × List UInt8) :=
  if ¬connects then none
  else if enough : 2 ≤ stream.length then
    let remEndian : Block 2 := ⟨stream.take 2, List.length_take_of_le enough⟩
    if wrote then some (decide (remEndian ≠ endianMark o), stream.drop 2) else none
  else none

/-- `resize` of the vector. -/
def resized (count : ℕ) (nodes : List NodeIdentifierKey) : List NodeIdentifierKey :=
  nodes.take count ++ List.replicate (count - nodes.length) .zero

/-- `ReceiveAllNodes` from `resize` on, which succeeds or throws for a size; the `catch` leads to
the same statement as a read of the whole array. -/
def receiveNodeArray (o : ByteOrder) (resize : ℕ → Bool) (isEndianDiffer : Bool)
    (nodesCount leaderIndex : Int) (nodes : List NodeIdentifierKey) (stream : List UInt8) :
    Option NodesReply :=
  if resize nodesCount.toNat then
    let nodes := resized nodesCount.toNat nodes
    let memory := imageOfKeys o nodes
    match readC (some memory) (keysSize nodesCount) stream with
    | none => none
    | some read =>
        let memory := read.buffer.getD memory
        if read.returned ≠ keysSize nodesCount then
          some ⟨-1, receivedKeys o false nodes.length memory, read.unread⟩
        else some ⟨leaderIndex, receivedKeys o isEndianDiffer nodes.length memory, read.unread⟩
  else some ⟨leaderIndex, nodes, stream⟩

/-- `Client::ReceiveAllNodes` into a vector that holds `nodes`. -/
def receiveAllNodes (o : ByteOrder) (connects wrote : Bool) (resize : ℕ → Bool)
    (nodes : List NodeIdentifierKey) (stream : List UInt8) : Option NodesReply :=
  match connectAndGetEndian2 o connects wrote stream with
  | none => some ⟨-1, nodes, if connects then stream.drop 2 else stream⟩
  | some (isEndianDiffer, stream) =>
      if stream.length < 8 then some ⟨-1, nodes, []⟩
      else
        let nodesCount := receivedInt o isEndianDiffer (stream.take 4)
        let leaderIndex := receivedInt o isEndianDiffer ((stream.drop 4).take 4)
        if nodesCount < 1 ∨ leaderIndex < 0 ∨ nodesCount ≤ leaderIndex then
          some ⟨-1, nodes, stream.drop 8⟩
        else
          receiveNodeArray o resize isEndianDiffer nodesCount leaderIndex nodes (stream.drop 8)

/-- A value that is not negative comes with as many nodes as were announced, all received from the
stream, and is the index of one of them. -/
def NodesReply.Complete (o : ByteOrder) (stream : List UInt8) (reply : NodesReply) : Prop :=
  0 ≤ reply.nReturn → ∃ (header : NodesHeader) (n : ℕ)
    (nodesInfo : Block (n * sizeofNodeIdentifierKey)),
      stream = header.bytes ++ (nodesInfo.bytes ++ reply.unread) ∧ header.announced o = n ∧
      reply.nodes = receivedKeys o (header.isEndianDiffer o) n nodesInfo ∧ reply.nReturn < n

namespace NodesHeader

@[simp] theorem length_bytes (header : NodesHeader) : header.bytes.length = 10 := by
  simp only [bytes, List.length_append, header.mark.sized, header.nodesCount.sized,
    header.leaderIndex.sized]

/-- Every stream of ten bytes and more starts with a header. -/
theorem exists_of_length {stream : List UInt8} (long : 10 ≤ stream.length) :
    ∃ (header : NodesHeader) (rest : List UInt8), stream = header.bytes ++ rest := by
  have four {skipped : ℕ} (inside : skipped ≤ 6) : ((stream.drop skipped).take 4).length = 4 :=
    List.length_take_of_le (by rw [List.length_drop]; omega)
  refine ⟨⟨⟨stream.take 2, List.length_take_of_le (by omega)⟩,
    ⟨(stream.drop 2).take 4, four (by decide)⟩, ⟨(stream.drop 6).take 4, four (by decide)⟩⟩,
    stream.drop 10, ?_⟩
  simp only [bytes, List.append_assoc]
  rw [← List.drop_drop (l := stream) (i := 4) (j := 6), List.take_append_drop,
    ← List.drop_drop (l := stream) (i := 4) (j := 2), List.take_append_drop, List.take_append_drop]

/-- A stream starts with one header only. -/
theorem bytes_append_inj {header header' : NodesHeader} {rest rest' : List UInt8}
    (same : header.bytes ++ rest = header'.bytes ++ rest') : header = header' ∧ rest = rest' := by
  obtain ⟨headers, rests⟩ := List.append_inj same (by rw [length_bytes, length_bytes])
  obtain ⟨marks, fields⟩ :=
    List.append_inj headers (by rw [header.mark.sized, header'.mark.sized])
  obtain ⟨counts, leaders⟩ :=
    List.append_inj fields (by rw [header.nodesCount.sized, header'.nodesCount.sized])
  exact ⟨NodesHeader.ext (Block.ext marks) (Block.ext counts) (Block.ext leaders), rests⟩

end NodesHeader

section Reading

variable {o : ByteOrder} {resize : ℕ → Bool} {nodes : List NodeIdentifierKey}

/-- The handshake succeeds after a connection and a write, and takes two bytes. -/
theorem connectAndGetEndian2_eq_some {connects wrote isEndianDiffer : Bool}
    {stream rest : List UInt8}
    (endian : connectAndGetEndian2 o connects wrote stream = some (isEndianDiffer, rest)) :
    connects = true ∧ wrote = true ∧ rest = stream.drop 2 := by
  unfold connectAndGetEndian2 at endian
  split at endian
  · cases endian
  · rename_i connected
    split at endian
    · split at endian
      · rename_i written
        cases endian
        exact ⟨not_not.mp connected, written, rfl⟩
      · cases endian
    · cases endian

/-- A client gets over a link what an attempt to join gets: the same answer, and after a success the
same is left to read. -/
theorem connectAndGetEndian2_eq_attempt (request : ConnectRequest) (descriptor : Int)
    (connects : Bool) (s : Attempt) (link : Link) :
    ∃ s' rest, (s.connectAndGetEndian2 o request descriptor connects).run link =
        some ((s', (connectAndGetEndian2 o (decide (0 ≤ descriptor) && connects)
          (decide (4 ≤ link.capacity)) link.input).map Prod.fst), rest) ∧
      ∀ endian ∈ connectAndGetEndian2 o (decide (0 ≤ descriptor) && connects)
        (decide (4 ≤ link.capacity)) link.input, rest.input = endian.2 := by
  rw [← s.connectC_snd]
  unfold Attempt.connectAndGetEndian2
  obtain ⟨s', connected⟩ := s.connectC descriptor connects
  cases connected with
  | false => exact ⟨s'.closeSocket, link, rfl, nofun⟩
  | true =>
      by_cases sent : 2 ≤ link.input.length
      · by_cases room : 4 ≤ link.capacity
        · refine ⟨s', ⟨link.input.drop 2, link.capacity - 4⟩, ?_, ?_⟩
          · simp [Dialogue.run, connectAndGetEndian2, sent, room]
          · simp [connectAndGetEndian2, sent, room]
        · refine ⟨s'.closeSocket, ⟨link.input.drop 2, 0⟩, ?_, ?_⟩
          · simp [Dialogue.run, connectAndGetEndian2, sent, room]
          · simp [connectAndGetEndian2, sent, room]
      · refine ⟨s'.closeSocket, ⟨[], link.capacity⟩, ?_, ?_⟩
        · simp [Dialogue.run, connectAndGetEndian2, sent]
        · simp [connectAndGetEndian2, sent]

variable (resize nodes) in
/-- Without a whole header nothing is accepted. -/
theorem receiveAllNodes_short {connects wrote : Bool} {stream : List UInt8}
    (short : ¬(connects = true ∧ wrote = true ∧ 10 ≤ stream.length)) :
    ∃ unread, receiveAllNodes o connects wrote resize nodes stream = some ⟨-1, nodes, unread⟩ := by
  cases endian : connectAndGetEndian2 o connects wrote stream with
  | none => exact ⟨_, by rw [receiveAllNodes, endian]⟩
  | some result =>
      obtain ⟨isEndianDiffer, rest⟩ := result
      obtain ⟨connected, written, rfl⟩ := connectAndGetEndian2_eq_some endian
      have few : (stream.drop 2).length < 8 := by
        rw [List.length_drop]
        by_contra long
        exact short ⟨connected, written, by omega⟩
      exact ⟨[], by simp only [receiveAllNodes, endian, if_pos few]⟩

/-- A header is taken as it is sent: the byte order mark first, then the two numbers,
swapped where the mark says so. -/
theorem receiveAllNodes_header (header : NodesHeader) (rest : List UInt8) :
    receiveAllNodes o true true resize nodes (header.bytes ++ rest) =
      if header.count o < 1 ∨ header.leader o < 0 ∨ header.count o ≤ header.leader o then
        some ⟨-1, nodes, rest⟩
      else receiveNodeArray o resize (header.isEndianDiffer o) (header.count o) (header.leader o)
        nodes rest := by
  have fields : header.bytes ++ rest =
      header.mark.bytes ++ (header.nodesCount.bytes ++ (header.leaderIndex.bytes ++ rest)) := by
    simp only [NodesHeader.bytes, List.append_assoc]
  have endian : connectAndGetEndian2 o true true (header.bytes ++ rest) =
      some (header.isEndianDiffer o,
        header.nodesCount.bytes ++ (header.leaderIndex.bytes ++ rest)) := by
    have enough := header.mark.le_length_append
      (header.nodesCount.bytes ++ (header.leaderIndex.bytes ++ rest))
    simp only [connectAndGetEndian2, fields, not_true, if_false, dif_pos enough,
      header.mark.take_append, if_true, List.drop_left' header.mark.sized]
    rfl
  have long : ¬(header.nodesCount.bytes ++ (header.leaderIndex.bytes ++ rest)).length < 8 := by
    simp only [List.length_append, header.nodesCount.sized, header.leaderIndex.sized]
    omega
  have behind : (header.nodesCount.bytes ++ (header.leaderIndex.bytes ++ rest)).drop 8 = rest := by
    rw [← List.append_assoc, List.drop_left']
    simp only [List.length_append, header.nodesCount.sized, header.leaderIndex.sized]
  simp only [receiveAllNodes, endian, if_neg long, List.take_left' header.nodesCount.sized,
    List.drop_left' header.nodesCount.sized, List.take_left' header.leaderIndex.sized, behind]
  rfl

@[simp] theorem length_resized (count : ℕ) (nodes : List NodeIdentifierKey) :
    (resized count nodes).length = count := by
  simp only [resized, List.length_append, List.length_take, List.length_replicate]
  omega

@[simp] theorem length_receivedKeys (isEndianDiffer : Bool) (count : ℕ)
    (nodesInfo : Block (count * sizeofNodeIdentifierKey)) :
    (receivedKeys o isEndianDiffer count nodesInfo).length = count := by
  rw [receivedKeys, List.length_map, Block.length_records]

variable (o resize nodes) {nodesCount : Int} (isEndianDiffer : Bool) (leaderIndex : Int)
variable (stream : List UInt8)

/-- The exception of `resize`. -/
theorem receiveNodeArray_thrown (throws : resize nodesCount.toNat = false) :
    receiveNodeArray o resize isEndianDiffer nodesCount leaderIndex nodes stream =
      some ⟨leaderIndex, nodes, stream⟩ := by
  rw [receiveNodeArray, if_neg (by rw [throws]; exact Bool.false_ne_true)]

/-- A negative size: `recv` takes it for a huge one and does not return it. -/
theorem receiveNodeArray_of_neg (resizes : resize nodesCount.toNat = true)
    (fits : IsInt nodesCount) (negative : keysSize nodesCount < 0) :
    (stream.length ≤ nodesCount.toNat * sizeofNodeIdentifierKey →
      ∃ nodes', receiveNodeArray o resize isEndianDiffer nodesCount leaderIndex nodes stream =
        some ⟨-1, nodes', []⟩) ∧
    (¬ stream.length ≤ nodesCount.toNat * sizeofNodeIdentifierKey →
      receiveNodeArray o resize isEndianDiffer nodesCount leaderIndex nodes stream = none) := by
  have few : (resized nodesCount.toNat nodes).length * sizeofNodeIdentifierKey < 2 ^ 63 := by
    obtain ⟨-, high⟩ := fits
    rw [length_resized, sizeofNodeIdentifierKey]
    omega
  obtain ⟨inside, outside⟩ := readC_of_neg
    (imageOfKeys o (resized nodesCount.toNat nodes)) negative (isInt_wordInt _) few stream
  constructor
  · intro room
    obtain ⟨buffer, read⟩ := inside (by rw [length_resized]; exact room)
    have other : (stream.length : Int) ≠ keysSize nodesCount := by omega
    simp only [receiveNodeArray, if_pos resizes, read, if_pos other]
    exact ⟨_, rfl⟩
  · intro beyond
    have none_read := outside (by rw [length_resized]; exact beyond)
    simp only [receiveNodeArray, if_pos resizes, none_read]

/-- A size that is not negative is not more than there is room for. -/
theorem keysSize_eq_natCast (positive : 1 ≤ nodesCount) (nonneg : 0 ≤ keysSize nodesCount) :
    ∃ size : ℕ, keysSize nodesCount = size ∧ size < 2 ^ 31 ∧
      size ≤ nodesCount.toNat * sizeofNodeIdentifierKey := by
  obtain ⟨small, cut⟩ := keysSize_of_nonneg nonneg
  obtain ⟨size, sized⟩ := Int.eq_ofNat_of_zero_le nonneg
  have remainder {i : Int} (nonneg : 0 ≤ i) : i % 2 ^ 32 ≤ i := by omega
  have below := remainder (i := 28 * nodesCount) (by omega)
  rw [← cut, sized] at small below
  refine ⟨size, sized, by omega, ?_⟩
  rw [sizeofNodeIdentifierKey]
  omega

/-- A size that is not negative: the first bytes of the vector come from the stream, and
what a short read leaves out stays as `resize` made it. -/
theorem receiveNodeArray_of_nonneg (resizes : resize nodesCount.toNat = true) {size : ℕ}
    (asked : keysSize nodesCount = size) (small : size < 2 ^ 31)
    (room : size ≤ nodesCount.toNat * sizeofNodeIdentifierKey) :
    (stream.length < size → ∃ nodes',
      receiveNodeArray o resize isEndianDiffer nodesCount leaderIndex nodes stream =
        some ⟨-1, nodes', stream.drop size⟩) ∧
    (size ≤ stream.length → ∃ memory : Block (nodesCount.toNat * sizeofNodeIdentifierKey),
      receiveNodeArray o resize isEndianDiffer nodesCount leaderIndex nodes stream =
        some ⟨leaderIndex, receivedKeys o isEndianDiffer _ memory, stream.drop size⟩ ∧
      memory.bytes.take size = stream.take size) := by
  have fits : (stream.take size).length ≤
      (resized nodesCount.toNat nodes).length * sizeofNodeIdentifierKey := by
    rw [length_resized]
    exact (List.length_take_le _ _).trans room
  have read := readC_of_nonneg (imageOfKeys o (resized nodesCount.toNat nodes))
    (small.trans (by decide)) stream fits
  constructor
  · intro short
    have fewer : ((stream.take size).length : Int) ≠ size := by
      rw [List.length_take]
      omega
    simp only [receiveNodeArray, if_pos resizes, asked, read, if_pos fewer]
    exact ⟨_, rfl⟩
  · intro delivered
    have whole : (stream.take size).length = size := List.length_take_of_le delivered
    have same : ¬((stream.take size).length : Int) ≠ size := by
      rw [whole]
      exact not_not.mpr rfl
    have returned : receiveNodeArray o resize isEndianDiffer nodesCount leaderIndex nodes stream =
        some ⟨leaderIndex, receivedKeys o isEndianDiffer _
          ((imageOfKeys o (resized nodesCount.toNat nodes)).fill (stream.take size) fits),
          stream.drop size⟩ := by
      simp only [receiveNodeArray, if_pos resizes, asked, read, if_neg same]
      rfl
    have filled : (((imageOfKeys o (resized nodesCount.toNat nodes)).fill
        (stream.take size) fits).bytes).take size = stream.take size := List.take_left' whole
    generalize (imageOfKeys o (resized nodesCount.toNat nodes)).fill (stream.take size) fits =
      memory at returned filled
    -- The memory is that of a vector of the announced length.
    clear read fits
    revert memory
    rw [length_resized]
    exact fun memory returned filled => ⟨memory, returned, filled⟩

end Reading

section Completeness

variable {o : ByteOrder} {resize : ℕ → Bool} {nodes : List NodeIdentifierKey}
variable {header : NodesHeader} {rest : List UInt8} {reply : NodesReply}

/-- A reply that reports a failure. -/
theorem NodesReply.complete_of_failed {stream : List UInt8} (failed : reply.nReturn = -1) :
    reply.Complete o stream := fun nonneg => by
  rw [failed] at nonneg
  cases nonneg

/-- What a complete reply has taken from the stream behind the header. -/
theorem NodesReply.Complete.lengths (complete : reply.Complete o (header.bytes ++ rest))
    (nonneg : 0 ≤ reply.nReturn) :
    header.announced o = reply.nodes.length ∧ reply.nReturn < reply.nodes.length ∧
      rest.length = reply.nodes.length * sizeofNodeIdentifierKey + reply.unread.length := by
  obtain ⟨header', n, nodesInfo, sent, announced, held, inside⟩ := complete nonneg
  obtain ⟨rfl, rfl⟩ := NodesHeader.bytes_append_inj sent
  rw [held, length_receivedKeys]
  exact ⟨announced, inside, by rw [List.length_append, nodesInfo.sized]⟩

/-- A vector whose first bytes are from the stream is complete exactly if they are all of
its bytes and as many nodes were announced. -/
theorem complete_iff_whole {n size : ℕ} {memory : Block (n * sizeofNodeIdentifierKey)}
    (nonneg : 0 ≤ header.leader o) (inside : header.leader o < n) (delivered : size ≤ rest.length)
    (filled : memory.bytes.take size = rest.take size) :
    NodesReply.Complete o (header.bytes ++ rest)
        ⟨header.leader o, receivedKeys o (header.isEndianDiffer o) n memory, rest.drop size⟩ ↔
      size = n * sizeofNodeIdentifierKey ∧ header.announced o = n := by
  constructor
  · intro complete
    obtain ⟨announced, -, consumed⟩ := complete.lengths nonneg
    rw [length_receivedKeys] at announced
    rw [length_receivedKeys, List.length_drop] at consumed
    exact ⟨by omega, announced⟩
  · rintro ⟨whole, announced⟩ -
    have all : memory.bytes.take size = memory.bytes :=
      List.take_of_length_le (by rw [memory.sized, whole])
    refine ⟨header, n, memory, ?_, announced, rfl, inside⟩
    rw [← all, filled, List.take_append_drop]

/-- The array behind a header is received into a vector, with a complete reply. -/
def NodesHeader.Received (o : ByteOrder) (resize : ℕ → Bool) (nodes : List NodeIdentifierKey)
    (rest : List UInt8) (header : NodesHeader) : Prop :=
  ∃ reply, receiveNodeArray o resize (header.isEndianDiffer o) (header.count o) (header.leader o)
    nodes rest = some reply ∧ reply.Complete o (header.bytes ++ rest)

/-- An exception is reported as a success with nothing received. -/
theorem not_received_of_thrown (nonneg : 0 ≤ header.leader o)
    (throws : resize (header.count o).toNat = false) :
    ¬header.Received o resize nodes rest := by
  rintro ⟨reply, returned, complete⟩
  rw [receiveNodeArray_thrown o resize nodes _ _ rest throws] at returned
  cases returned
  obtain ⟨-, below, consumed⟩ := complete.lengths nonneg
  simp only [sizeofNodeIdentifierKey] at below consumed
  omega

/-- A negative size leads to a failure, or to a write behind the vector. -/
theorem received_iff_of_neg (resizes : resize (header.count o).toNat = true)
    (negative : keysSize (header.count o) < 0) :
    header.Received o resize nodes rest ↔
      rest.length ≤ (header.count o).toNat * sizeofNodeIdentifierKey := by
  obtain ⟨room, overflows⟩ := receiveNodeArray_of_neg o resize nodes (header.isEndianDiffer o)
    (header.leader o) rest resizes (isInt_wordInt _) negative
  constructor
  · rintro ⟨reply, returned, -⟩
    by_contra long
    cases returned.symm.trans (overflows long)
  · intro short
    obtain ⟨nodes', returned⟩ := room short
    exact ⟨_, returned, NodesReply.complete_of_failed rfl⟩

/-- For a size that is not negative, what is delivered has to be what was announced: the
product must not have been cut, and the number must have come as it was sent. -/
theorem received_iff_of_nonneg (nonneg : 0 ≤ header.leader o)
    (inside : header.leader o < header.count o) (resizes : resize (header.count o).toNat = true)
    (sized : 0 ≤ keysSize (header.count o)) :
    header.Received o resize nodes rest ↔
      (keysSize (header.count o) ≤ rest.length →
        28 * header.count o < 2 ^ 31 ∧ header.announced o = header.count o) := by
  obtain ⟨size, asked, small, room⟩ := keysSize_eq_natCast (by omega) sized
  obtain ⟨short, delivered⟩ := receiveNodeArray_of_nonneg o resize nodes
    (header.isEndianDiffer o) (header.leader o) rest resizes asked small room
  rw [asked]
  rcases Nat.lt_or_ge rest.length size with few | enough
  · obtain ⟨nodes', returned⟩ := short few
    exact iff_of_true ⟨_, returned, NodesReply.complete_of_failed rfl⟩ fun enough => by omega
  · obtain ⟨memory, returned, filled⟩ := delivered enough
    have complete := complete_iff_whole nonneg (by omega) enough filled
    rw [sizeofNodeIdentifierKey] at complete
    constructor
    · rintro ⟨reply, same, holds⟩ -
      cases returned.symm.trans same
      obtain ⟨whole, announced⟩ := complete.mp holds
      exact ⟨by omega, by omega⟩
    · intro holds
      obtain ⟨bounded, announced⟩ := holds (Int.ofNat_le.mpr enough)
      have uncut : size = (header.count o).toNat * sizeofNodeIdentifierKey := by
        rw [keysSize_of_lt (by omega) bounded] at asked
        exact (Int.ofNat.inj asked).symm
      exact ⟨_, returned, complete.mpr ⟨uncut, by omega⟩⟩

/-- The nodes behind an accepted header are received completely in just these cases. -/
theorem received_iff (nonneg : 0 ≤ header.leader o) (inside : header.leader o < header.count o) :
    header.Received o resize nodes rest ↔
      resize (header.count o).toNat = true ∧
      (keysSize (header.count o) < 0 →
        rest.length ≤ (header.count o).toNat * sizeofNodeIdentifierKey) ∧
      (0 ≤ keysSize (header.count o) → keysSize (header.count o) ≤ rest.length →
        28 * header.count o < 2 ^ 31 ∧ header.announced o = header.count o) := by
  cases resizes : resize (header.count o).toNat with
  | false =>
      refine iff_of_false (not_received_of_thrown nonneg resizes) ?_
      rintro ⟨thrown, -⟩
      cases thrown
  | true =>
      rcases Int.lt_or_le (keysSize (header.count o)) 0 with negative | sized
      · rw [received_iff_of_neg resizes negative]
        exact ⟨fun short => ⟨rfl, fun _ => short, fun sized => by omega⟩,
          fun ⟨_, short, _⟩ => short negative⟩
      · rw [received_iff_of_nonneg nonneg inside resizes sized]
        exact ⟨fun holds => ⟨rfl, fun negative => by omega, fun _ => holds⟩,
          fun ⟨_, _, holds⟩ => holds sized⟩

end Completeness

/-- A success of `ReceiveAllNodes` comes with all the nodes that were announced if and only if,
for a header that is accepted, `resize` does not throw, a size that was cut to a negative one
leaves no more bytes to read than there is room for, and the bytes are not all delivered for a
size that was cut or a number of nodes that is not the announced one. -/
theorem receiveAllNodes_complete_iff (o : ByteOrder) (connects wrote : Bool) (resize : ℕ → Bool)
    (nodes : List NodeIdentifierKey) (stream : List UInt8) :
    (∃ reply, receiveAllNodes o connects wrote resize nodes stream = some reply ∧
        reply.Complete o stream) ↔
      ∀ (header : NodesHeader) (rest : List UInt8), connects = true → wrote = true →
        stream = header.bytes ++ rest → 1 ≤ header.count o → 0 ≤ header.leader o →
        header.leader o < header.count o →
          resize (header.count o).toNat = true ∧
          (keysSize (header.count o) < 0 →
            rest.length ≤ (header.count o).toNat * sizeofNodeIdentifierKey) ∧
          (0 ≤ keysSize (header.count o) → keysSize (header.count o) ≤ rest.length →
            28 * header.count o < 2 ^ 31 ∧ header.announced o = header.count o) := by
  by_cases long : connects = true ∧ wrote = true ∧ 10 ≤ stream.length
  · obtain ⟨rfl, rfl, long⟩ := long
    obtain ⟨header, rest, rfl⟩ := NodesHeader.exists_of_length long
    rw [receiveAllNodes_header]
    by_cases refused : header.count o < 1 ∨ header.leader o < 0 ∨ header.count o ≤ header.leader o
    · rw [if_pos refused]
      refine iff_of_true ⟨_, rfl, NodesReply.complete_of_failed rfl⟩ ?_
      intro header' rest' _ _ sent positive nonneg inside
      obtain ⟨rfl, rfl⟩ := NodesHeader.bytes_append_inj sent
      omega
    · obtain ⟨positive, nonneg, inside⟩ :
          1 ≤ header.count o ∧ 0 ≤ header.leader o ∧ header.leader o < header.count o := by omega
      rw [if_neg refused]
      refine (received_iff nonneg inside).trans ?_
      constructor
      · intro holds header' rest' _ _ sent _ _ _
        obtain ⟨rfl, rfl⟩ := NodesHeader.bytes_append_inj sent
        exact holds
      · intro holds
        exact holds header rest rfl rfl rfl positive nonneg inside
  · obtain ⟨unread, failed⟩ := receiveAllNodes_short resize nodes long
    refine iff_of_true ⟨_, failed, NodesReply.complete_of_failed rfl⟩ ?_
    intro header rest connected written sent _ _ _
    refine absurd ⟨connected, written, ?_⟩ long
    rw [sent, List.length_append, header.length_bytes]
    exact Nat.le_add_right _ _

/-- What a server of byte order `o` sends before its nodes. -/
def NodesHeader.sent (o : ByteOrder) (nodesCount leaderIndex : Int) : NodesHeader where
  mark := endianMark o
  nodesCount := ⟨o.bytes (intWord nodesCount), o.length_bytes _⟩
  leaderIndex := ⟨o.bytes (intWord leaderIndex), o.length_bytes _⟩

namespace NodesHeader

variable (o : ByteOrder) {nodesCount leaderIndex : Int}

@[simp] theorem isEndianDiffer_sent : (sent o nodesCount leaderIndex).isEndianDiffer o = false :=
  decide_eq_false (not_not.mpr rfl)

/-- The number of nodes in the header is the one that was sent. -/
theorem count_sent (fits : IsInt nodesCount) :
    (sent o nodesCount leaderIndex).count o = nodesCount := by
  rw [count, isEndianDiffer_sent]
  exact receivedInt_same o fits

/-- So is the index of the leader. -/
theorem leader_sent (fits : IsInt leaderIndex) :
    (sent o nodesCount leaderIndex).leader o = leaderIndex := by
  rw [leader, isEndianDiffer_sent]
  exact receivedInt_same o fits

end NodesHeader

/-- `resize` throws for the only node: the empty vector is reported with its leader at position
`0`. The byte size of 153391690 nodes is cut to `24`: so many bytes are enough. -/
theorem receiveAllNodes_incomplete :
    (receiveAllNodes .little true true (fun _ => false) []
        (NodesHeader.sent .little 1 0).bytes = some ⟨0, [], []⟩ ∧
      ¬NodesReply.Complete .little (NodesHeader.sent .little 1 0).bytes ⟨0, [], []⟩) ∧
    ∃ nodes, receiveAllNodes .little true true (fun _ => true) []
        ((NodesHeader.sent .little 153391690 0).bytes ++ List.replicate 24 7) =
          some ⟨0, nodes, []⟩ ∧
      ¬NodesReply.Complete .little
        ((NodesHeader.sent .little 153391690 0).bytes ++ List.replicate 24 7) ⟨0, nodes, []⟩ := by
  refine ⟨⟨by decide, ?_⟩, ?_⟩
  · intro complete
    rw [← List.append_nil (NodesHeader.bytes _)] at complete
    obtain ⟨-, below, -⟩ := complete.lengths (Int.le_refl 0)
    exact absurd below (by decide)
  · have count : (NodesHeader.sent .little 153391690 0).count .little = 153391690 := by decide
    have leader : (NodesHeader.sent .little 153391690 0).leader .little = 0 := by decide
    have size : keysSize 153391690 = (24 : ℕ) := by decide
    obtain ⟨-, delivered⟩ := receiveNodeArray_of_nonneg .little (fun _ => true) [] false 0
      (List.replicate 24 7) rfl size (by decide) (by decide)
    obtain ⟨memory, returned, -⟩ := delivered (by decide)
    refine ⟨receivedKeys .little false _ memory, ?_, ?_⟩
    · rw [receiveAllNodes_header, count, leader, if_neg (by decide)]
      exact returned
    · intro complete
      obtain ⟨-, -, consumed⟩ := complete.lengths (Int.le_refl 0)
      rw [length_receivedKeys] at consumed
      cases consumed

section Answer

variable (o : ByteOrder) {resize : ℕ → Bool} (nodes : List NodeIdentifierKey)

/-- `raft_connect_fromClient_allNodesInfo`; an array whose size does not fit is undefined. -/
def raftConnectFromClientAllNodesInfo (table : NodeTable NodeIdentifierKey) : Session Unit :=
  .write (o.bytes (intWord (nodesCount table.nodes)) ++ o.bytes (intWord (leaderIndexOf table))) <|
  if keysSize (nodesCount table.nodes) = table.nodes.length * sizeofNodeIdentifierKey then
    .write (imageOfKeys o table.nodes).bytes (.done ())
  else .undefined

variable {table : NodeTable NodeIdentifierKey}

/-- A client receives the nodes of a server of its byte order and the position of their leader,
or a failure if there is none. -/
theorem receiveAllNodes_of_server (few : table.nodes.length * sizeofNodeIdentifierKey < 2 ^ 31)
    (resizes : resize table.nodes.length = true) :
    ∃ ending, (raftConnectFromClientAllNodesInfo o table).runOn [] = some ending ∧
      receiveAllNodes o true true resize nodes ((endianMark o).bytes ++ ending.written) =
        some (if leaderIndexOf table < 0 then
          ⟨-1, nodes, (imageOfKeys o table.nodes).bytes⟩
        else ⟨leaderIndexOf table, table.nodes, []⟩) := by
  let header := NodesHeader.sent o (nodesCount table.nodes) (leaderIndexOf table)
  have sent : (raftConnectFromClientAllNodesInfo o table).runOn [] = some ⟨(),
      header.nodesCount.bytes ++ header.leaderIndex.bytes ++ (imageOfKeys o table.nodes).bytes,
      []⟩ := by
    rw [raftConnectFromClientAllNodesInfo, nodesCount_eq few, keysSize_natCast few, if_pos rfl]
    simp [Session.runOn, header, NodesHeader.sent, nodesCount_eq few]
  have stream : (endianMark o).bytes ++ (header.nodesCount.bytes ++ header.leaderIndex.bytes ++
      (imageOfKeys o table.nodes).bytes) = header.bytes ++ (imageOfKeys o table.nodes).bytes :=
    (List.append_assoc _ _ _).symm
  have count : header.count o = table.nodes.length := by
    rw [← nodesCount_eq few]
    exact NodesHeader.count_sent o (isInt_wordInt _)
  have leader : header.leader o = leaderIndexOf table :=
    NodesHeader.leader_sent o (isInt_leaderIndexOf few)
  refine ⟨_, sent, ?_⟩
  rw [stream, receiveAllNodes_header, count, leader, NodesHeader.isEndianDiffer_sent]
  have range := collectLeaderIndex_range table.record 0 (-1) table.nodes
  rw [← leaderIndexOf] at range
  by_cases none : leaderIndexOf table < 0
  · rw [if_pos (Or.inr (Or.inl none)), if_pos none]
  · rw [if_neg (by omega), if_neg none]
    have resizes' : resize (table.nodes.length : Int).toNat = true := resizes
    obtain ⟨-, delivered⟩ := receiveNodeArray_of_nonneg o resize nodes false (leaderIndexOf table)
      (imageOfKeys o table.nodes).bytes resizes' (keysSize_natCast few) few le_rfl
    have sized := (imageOfKeys o table.nodes).sized
    obtain ⟨memory, returned, filled⟩ := delivered sized.ge
    have whole : memory.bytes.length ≤ table.nodes.length * sizeofNodeIdentifierKey :=
      memory.sized.le
    rw [List.take_of_length_le whole, List.take_of_length_le sized.le] at filled
    have same : receivedKeys o false table.nodes.length memory = table.nodes := by
      rw [Block.ext filled, receivedKeys_image]
      simp only [NodeIdentifierKey.received_image, List.map_id']
    rw [returned, List.drop_eq_nil_of_le sized.le]
    exact congrArg some (congrArg (NodesReply.mk _ · _) same)

end Answer

end Tcp

end CppRaft
