import CppRaft.Tcp.Wire

/-!
# Connections between machines of opposite byte order

An acceptor detects the difference from the request code, and both ends swap the
32-bit fields that they read. The swap exchanges the two middle bytes only, so a
field is recovered exactly when its lowest and its highest byte are the same.
-/

namespace CppRaft

namespace Tcp

open Machine

/-- The lowest and the highest byte of a word are the same. -/
def SameEnds (w : UInt32) : Prop :=
  byteOf w 0 = byteOf w 3

instance (w : UInt32) : Decidable (SameEnds w) :=
  inferInstanceAs (Decidable (byteOf w 0 = byteOf w 3))

/-- `raft_swap_4_bytes` leaves the outer bytes where they are. -/
theorem raftSwap4Bytes_eq (b₀ b₁ b₂ b₃ : UInt8) :
    raftSwap4Bytes [b₀, b₁, b₂, b₃] = [b₀, b₂, b₁, b₃] := rfl

/-- Whether the outer bytes of a word agree does not depend on the byte order that it is
stored in. -/
theorem sameEnds_iff (o : ByteOrder) {w : UInt32} {b₀ b₁ b₂ b₃ : UInt8}
    (stored : o.bytes w = [b₀, b₁, b₂, b₃]) : SameEnds w ↔ b₀ = b₃ := by
  cases o with
  | little =>
      cases stored
      exact Iff.rfl
  | big =>
      cases stored
      exact eq_comm

/-- A field from the other machine is recovered exactly when its ends are the same. -/
theorem receivedWord_other_eq_iff (o : ByteOrder) (w : UInt32) :
    receivedWord o true (o.other.bytes w) = w ↔ SameEnds w := by
  obtain ⟨b₀, b₁, b₂, b₃, stored⟩ := o.exists_bytes w
  have back : o.word [b₀, b₁, b₂, b₃] = w := by rw [← stored, o.word_bytes]
  have swapped : receivedWord o true (o.other.bytes w) = o.word [b₃, b₁, b₂, b₀] := by
    rw [receivedWord, if_pos rfl, o.bytes_other, stored, swap4Bytes]
    exact congrArg o.word (congrArg raftSwap4Bytes (o.bytes_word b₃ b₂ b₁ b₀))
  rw [swapped, sameEnds_iff o stored]
  constructor
  · intro same
    have bytes := o.word_inj (same.trans back.symm)
    simp only [List.cons.injEq] at bytes
    exact bytes.1.symm
  · rintro rfl
    exact back

/-- Between machines of different byte order an `int` arrives as it was sent exactly if its
outer bytes agree: the swap exchanges only the inner ones. -/
theorem receivedInt_other_eq_iff (o : ByteOrder) {i : Int} (fits : IsInt i) :
    receivedInt o true (o.other.bytes (intWord i)) = i ↔ SameEnds (intWord i) := by
  rw [receivedInt, wordInt_eq_iff fits, receivedWord_other_eq_iff]

/-- A request code from the other machine is large, so the difference is noticed. -/
theorem other_request_large (o : ByteOrder) {r : UInt32} (positive : 0 < r)
    (small : r < maxRequestNumberPrvt) : ¬o.word (o.other.bytes r) < maxRequestNumberPrvt := by
  have reversed : o.word (o.other.bytes r) =
      wordOf (byteOf r 3) (byteOf r 2) (byteOf r 1) (byteOf r 0) := by
    cases o <;> rfl
  have low : 0 < r.toNat := positive
  have high : r.toNat < 0xffff := small
  rw [reversed, UInt32.lt_iff_toNat_lt, toNat_wordOf]
  simp only [toNat_byteOf]
  have bound : maxRequestNumberPrvt.toNat = 0xffff := rfl
  omega

/-- The acceptor recovers a request of the other machine exactly when its ends are the same. -/
theorem isEndianDifferAndRequest_other (o : ByteOrder) {r : UInt32} (positive : 0 < r)
    (small : r < maxRequestNumberPrvt) :
    isEndianDifferAndRequest o (o.word (o.other.bytes r)) =
      (true, receivedWord o true (o.other.bytes r)) := by
  rw [isEndianDifferAndRequest, if_neg (other_request_large o positive small), receivedWord,
    if_pos rfl]

/-- A listing arrives as it was sent exactly if every port does. -/
theorem receivedKeys_other_eq_iff (o : ByteOrder) (keys : List NodeIdentifierKey) :
    receivedKeys o true keys.length (imageOfKeys o.other keys) = keys ↔
      ∀ key ∈ keys, SameEnds (intWord key.port) := by
  have fixed (key : NodeIdentifierKey) :
      NodeIdentifierKey.received o true (key.image o.other) = key ↔
        SameEnds (intWord key.port) := by
    rw [NodeIdentifierKey.received_image_eq_iff, receivedInt_other_eq_iff o key.portFits]
  have pointwise (f : NodeIdentifierKey → NodeIdentifierKey) :
      keys.map f = keys ↔ ∀ key ∈ keys, f key = id key := by
    rw [← List.map_inj_left, List.map_id]
  rw [receivedKeys_image, pointwise]
  exact forall₂_congr fun key _ => fixed key

/-- The joiner's machine has the other byte order than the acceptor's. The acceptor notices the
difference and recovers the request and the joiner's port, and the joiner recovers the leader
index, the number of nodes and every node key, if and only if the lowest and the highest byte
are the same in every one of these fields. -/
theorem handshake_recovered_iff (o : ByteOrder) (r : UInt32) (positive : 0 < r)
    (small : r < maxRequestNumberPrvt) (port leaderIndex : Int) (portFits : IsInt port)
    (indexFits : IsInt leaderIndex) (keys : List NodeIdentifierKey) :
    (isEndianDifferAndRequest o (o.word (o.other.bytes r)) = (true, r) ∧
      receivedInt o true (o.other.bytes (intWord port)) = port ∧
      receivedInt o.other true (o.bytes (intWord leaderIndex)) = leaderIndex ∧
      receivedInt o.other true (o.bytes (intWord (nodesCount keys))) = nodesCount keys ∧
      receivedKeys o.other true keys.length (imageOfKeys o keys) = keys) ↔
    SameEnds r ∧ SameEnds (intWord port) ∧ SameEnds (intWord leaderIndex) ∧
      SameEnds (intWord (nodesCount keys)) ∧ ∀ key ∈ keys, SameEnds (intWord key.port) := by
  have index := receivedInt_other_eq_iff o.other indexFits
  have count := receivedInt_other_eq_iff o.other (isInt_wordInt (intWord keys.length))
  have all := receivedKeys_other_eq_iff o.other keys
  rw [o.other_other] at index count all
  rw [isEndianDifferAndRequest_other o positive small, Prod.mk.injEq,
    receivedWord_other_eq_iff, receivedInt_other_eq_iff o portFits, index, nodesCount, count, all]
  simp only [true_and]

/-- A request, a port, no leader and 256 nodes whose fields all have equal ends. -/
theorem handshake_recovered_equal_ends :
    isEndianDifferAndRequest .little (ByteOrder.little.word (ByteOrder.big.bytes 0x100)) =
        (true, 0x100) ∧
      receivedInt .big true (ByteOrder.little.bytes (intWord (nodesCount
        (List.replicate 256 NodeIdentifierKey.zero)))) = 256 ∧
      receivedInt .little true (ByteOrder.big.bytes (intWord 0x2000)) = 0x2000 := by
  have recovered := (handshake_recovered_iff .little 0x100 (by decide) (by decide) 0x2000 (-1)
    (by decide) (by decide) (List.replicate 256 NodeIdentifierKey.zero)).mpr
    ⟨by decide, by decide, by decide, by rw [nodesCount, List.length_replicate]; decide,
      fun key member => by rw [List.eq_of_mem_replicate member]; decide⟩
  refine ⟨recovered.1, recovered.2.2.2.1.trans ?_, recovered.2.1⟩
  rw [nodesCount, List.length_replicate]
  decide

/-- The code of `newNode` is not recovered, nor is a port or the number of nodes. -/
theorem newNode_request_not_recovered :
    isEndianDifferAndRequest .big (ByteOrder.big.word
        (ByteOrder.little.bytes ConnectRequest.newNode.code)) = (true, 0x1000000) ∧
      receivedInt .big true (ByteOrder.little.bytes (intWord 9031)) = 0x47002300 ∧
      receivedInt .little true (ByteOrder.big.bytes (intWord (nodesCount
        [NodeIdentifierKey.zero]))) = 0x1000000 := by
  decide

end Tcp

end CppRaft
