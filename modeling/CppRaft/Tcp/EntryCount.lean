import CppRaft.Machine.Text
import CppRaft.Server.Handlers
import CppRaft.Tcp.Receive

/-!
# The number of entries of a message

The header of an AppendEntries message is read over the first fields of a `MsgAppendEntries2`, and
its number of entries with them. That number says how many bytes are read into the array, whether
there is an array to read them into, and which elements `recv_appendentries` appends. Its product
with the size of an entry is cut to 32 bits, and only `addEntry2` compares it with the array.
-/

namespace CppRaft

namespace Tcp

open Machine

/-- A `MsgAppendEntries2` in memory: the fields in front of its array and the bytes of the
array. -/
structure MsgAppendEntries2 where
  header : AppendHeader
  dEntries2 : Block (maxNumOfAppendEntriesLog * sizeofMsgEntry)

/-- How `HandleSeedClbk` leaves an AppendEntries message: it goes to `returnPoint`, it writes
where nothing may be written, or it hands the message to `recv_appendentries`. -/
inductive EntriesRead where
  | rejected
  | undefined
  | accepted (ae : MsgAppendEntries2) (unread : List UInt8)

/-- The message that is handed over, and what is left of the stream. -/
def EntriesRead.accepted? : EntriesRead → Option (MsgAppendEntries2 × List UInt8)
  | accepted ae unread => some (ae, unread)
  | _ => none

namespace MsgAppendEntries2

/-- The default constructor. -/
def new : MsgAppendEntries2 :=
  ⟨⟨0, 0, 0, 0, 0, 0⟩, .zeros _⟩

/-- `entries`; `none` for `NULL`. -/
def entries (ae : MsgAppendEntries2) :
    Option (Block (maxNumOfAppendEntriesLog * sizeofMsgEntry)) :=
  if ae.header.nSize ≤ 0 then none else some ae.dEntries2

/-- The elements of the array. -/
def elements (ae : MsgAppendEntries2) : List (Block sizeofMsgEntry) :=
  Block.records sizeofMsgEntry maxNumOfAppendEntriesLog ae.dEntries2

/-- `getEntry`. -/
def getEntry (ae : MsgAppendEntries2) (i : ℕ) : Exit (Block sizeofMsgEntry) :=
  if ae.header.nSize ≤ i then .thrown else subscript ae.elements i

/-- The case of `RAFT_MSG_APPENDENTRIES` in `HandleSeedClbk`, after the header. -/
def receiveEntries (ae : MsgAppendEntries2) (stream : List UInt8) : EntriesRead :=
  if ae.header.nSize ≠ 0 then
    let nToReceive := entryBytes ae.header.nSize
    match readC ae.entries nToReceive stream with
    | none => .undefined
    | some read =>
        if read.returned ≠ nToReceive then .rejected
        else .accepted { ae with dEntries2 := read.buffer.getD ae.dEntries2 } read.unread
  else .accepted ae stream

/-- The case of `RAFT_MSG_APPENDENTRIES` in `HandleSeedClbk`, for a header it has read. -/
def receive (o : ByteOrder) (header : Block sizeOfInitialRcvOfMsgApp) (stream : List UInt8) :
    EntriesRead :=
  receiveEntries { new with header := AppendHeader.ofImage o header.bytes } stream

/-- The append loop of `recv_appendentries` from element `i` on, with `left` passes to go. What
`populateFromMsgEntry` copies from the pointer of an entry is given by `populate`. -/
def appendEntries {Node : Type} [DecidableEq Node] (populate : Block sizeofMsgEntry → MsgEntry)
    (ae : MsgAppendEntries2) :
    (left i : ℕ) → RaftServer Node → Outcome (RaftServer Node) (Action Node) Int
  | 0, _, s => (Effect.done s).returning 1
  | left + 1, i, s =>
      (Outcome.ofExit (ae.getEntry i) s).bind fun entry s =>
        (RaftServer.appendEntry (.ofMsgEntry s.currentTerm (populate entry)) s).bind
          fun result s =>
            if result = 0 then (Effect.done s).returning 0
            else appendEntries populate ae left (i + 1) s

end MsgAppendEntries2

/-! ### The size of the entries -/

/-- The number of bytes for some entries, in the form that case splits use. -/
theorem entryBytes_eq_ite (n : Int) :
    entryBytes n =
      if 24 * n % 2 ^ 32 < 2 ^ 31 then 24 * n % 2 ^ 32 else 24 * n % 2 ^ 32 - 2 ^ 32 := by
  rw [entryBytes, wordInt_intWord_eq_ite, sizeofMsgEntry, Int.mul_comm]
  rfl

/-- The size is exact for the numbers that the array has room for. -/
theorem entryBytes_of_le {n : Int} (nonneg : 0 ≤ n) (bounded : n ≤ maxNumOfAppendEntriesLog) :
    entryBytes n = n * sizeofMsgEntry := by
  rw [maxNumOfAppendEntriesLog] at bounded
  rw [entryBytes_eq_ite, sizeofMsgEntry]
  split <;> omega

/-- No bytes are read for a number of entries that the product with their size wraps to
zero. -/
theorem entryBytes_eq_zero_iff (n : Int) : entryBytes n = 0 ↔ 24 * n % 2 ^ 32 = 0 := by
  have below : 24 * n % 2 ^ 32 < 2 ^ 32 := Int.emod_lt_of_pos _ (by decide)
  rw [entryBytes_eq_ite]
  generalize 24 * n % 2 ^ 32 = size at below
  split <;> omega

/-- The size is a multiple of eight, so that it is not what a failed `recv` returns. -/
theorem entryBytes_ne_neg_one (n : Int) : entryBytes n ≠ -1 := by
  rw [entryBytes_eq_ite]
  split <;> omega

/-- A size is the product up to multiples of `2 ^ 32`, or it is negative and far larger than the
array as a `size_t`. -/
theorem entryBytes_cases (n : Int) :
    (entryBytes n = 24 * n % 2 ^ 32 ∧ (sizeT (entryBytes n) : Int) = 24 * n % 2 ^ 32) ∨
      (entryBytes n < 0 ∧ 2 ^ 31 ≤ 24 * n % 2 ^ 32 ∧ 2 ^ 63 ≤ sizeT (entryBytes n)) := by
  have nonneg : 0 ≤ 24 * n % 2 ^ 32 := Int.emod_nonneg _ (by decide)
  have below : 24 * n % 2 ^ 32 < 2 ^ 32 := Int.emod_lt_of_pos _ (by decide)
  rw [sizeT, entryBytes_eq_ite]
  generalize 24 * n % 2 ^ 32 = product at nonneg below
  split
  · left
    omega
  · right
    omega

/-- The conversion to `size_t` keeps zero. -/
theorem sizeT_entryBytes_eq_zero_iff (n : Int) :
    sizeT (entryBytes n) = 0 ↔ entryBytes n = 0 := by
  rcases entryBytes_cases n with ⟨size, asked⟩ | ⟨negative, -, asked⟩
  · rw [← Int.natCast_eq_zero, asked, size]
  · omega

namespace MsgAppendEntries2

variable (ae : MsgAppendEntries2) (stream : List UInt8)

/-! ### What is accepted -/

/-- A message without entries is handed over as it is. -/
theorem receiveEntries_of_zero (none : ae.header.nSize = 0) :
    ae.receiveEntries stream = .accepted ae stream :=
  if_neg (not_not.mpr none)

/-- With a negative number there is no buffer. -/
theorem receiveEntries_of_neg (negative : ae.header.nSize < 0) :
    ae.receiveEntries stream =
      if entryBytes ae.header.nSize = 0 then .accepted ae stream else .rejected := by
  have noBuffer : ae.entries = none := if_pos (Int.le_of_lt negative)
  rw [receiveEntries, if_pos (Int.ne_of_lt negative), noBuffer]
  simp only [readC, sizeT_entryBytes_eq_zero_iff]
  by_cases empty : entryBytes ae.header.nSize = 0
  · simp [empty]
  · rw [if_neg empty, if_neg empty, if_pos (entryBytes_ne_neg_one _).symm]

/-- With a positive number the buffer is the array. -/
theorem receiveEntries_of_pos (positive : 0 < ae.header.nSize) :
    ae.receiveEntries stream =
      let front := stream.take (sizeT (entryBytes ae.header.nSize))
      if fits : front.length ≤ maxNumOfAppendEntriesLog * sizeofMsgEntry then
        if front.length ≠ entryBytes ae.header.nSize then .rejected
        else .accepted { ae with dEntries2 := ae.dEntries2.fill front fits }
          (stream.drop (sizeT (entryBytes ae.header.nSize)))
      else .undefined := by
  have buffer : ae.entries = some ae.dEntries2 := if_neg (Int.not_le.mpr positive)
  rw [receiveEntries, if_pos (Int.ne_of_gt positive), buffer]
  by_cases fits : (stream.take (sizeT (entryBytes ae.header.nSize))).length ≤
      maxNumOfAppendEntriesLog * sizeofMsgEntry
  · simp only [readC, dif_pos fits, Option.getD_some]
  · simp only [readC, dif_neg fits]

/-! ### What is obtained -/

/-- The array has its full number of elements, whatever the header says. -/
theorem length_elements : ae.elements.length = maxNumOfAppendEntriesLog :=
  Block.length_records _ _ _

/-- `getEntry` inside the array. -/
theorem getEntry_of_lt {i : ℕ} (counted : i < ae.header.nSize) (inside : i < ae.elements.length) :
    ae.getEntry i = .returned ae.elements[i] := by
  rw [getEntry, if_neg (Int.not_le.mpr counted), subscript, if_pos (Int.natCast_nonneg i),
    Int.toNat_natCast, List.getElem?_eq_getElem inside]

/-- `getEntry` does not compare the index with the size of the array. -/
theorem getEntry_of_le {i : ℕ} (counted : i < ae.header.nSize) (behind : ae.elements.length ≤ i) :
    ae.getEntry i = .undefined := by
  rw [getEntry, if_neg (Int.not_le.mpr counted), subscript, if_pos (Int.natCast_nonneg i),
    Int.toNat_natCast, List.getElem?_eq_none behind]

/-- The loop appends the elements of the array like the entries of a list, and leaves the array
when it has appended them all and there are passes to go. -/
theorem appendEntries_eq {Node : Type} [DecidableEq Node]
    (populate : Block sizeofMsgEntry → MsgEntry) (left : ℕ) {i : ℕ}
    (inside : i ≤ ae.elements.length) (counted : (i + left : ℕ) ≤ ae.header.nSize)
    (s : RaftServer Node) :
    ae.appendEntries populate left i s =
      (RaftServer.appendMsgEntries (((ae.elements.drop i).take left).map populate) s).bind
        fun result s =>
          if result ≠ 0 ∧ ae.elements.length < i + left then ⟨.undefined, s, []⟩
          else (Effect.done s).returning result := by
  induction left generalizing i s with
  | zero =>
      have notBehind : ¬ae.elements.length < i := Nat.not_lt.mpr inside
      simp [appendEntries, RaftServer.appendMsgEntries, Outcome.bind, Effect.returning, notBehind]
  | succ left ih =>
      rcases Nat.lt_or_eq_of_le inside with inside | rfl
      · rw [appendEntries, getEntry_of_lt ae (by omega) inside, Outcome.bind_ofExit_returned,
          List.drop_eq_getElem_cons inside, List.take_succ_cons, List.map_cons,
          RaftServer.appendMsgEntries, Outcome.bind_assoc]
        congr 1
        funext result s
        by_cases refused : result = 0
        · simp [refused, Outcome.bind, Effect.returning]
        · rw [if_neg refused, if_neg refused, ih inside (by omega), Nat.succ_add_eq_add_succ]
      · rw [appendEntries, getEntry_of_le ae (by omega) (Nat.le_refl _), List.drop_length]
        simp [RaftServer.appendMsgEntries, Outcome.bind, Outcome.ofExit, Effect.returning]

/-! ### What can be relied on -/

/-- `recv_appendentries` can rely on the number of entries: the array has room for it, the bytes
read are that many entries, and the elements it obtains with `getEntry` are among them. -/
structure Within : Prop where
  nonneg : 0 ≤ ae.header.nSize
  bounded : ae.header.nSize ≤ maxNumOfAppendEntriesLog
  whole : entryBytes ae.header.nSize = ae.header.nSize * sizeofMsgEntry
  fits : entryBytes ae.header.nSize ≤ maxNumOfAppendEntriesLog * sizeofMsgEntry
  received : ∀ i : ℕ, i < ae.header.nSize → ∃ entry, ae.getEntry i = .returned entry ∧
    entry.bytes =
      ((stream.take (entryBytes ae.header.nSize).toNat).drop (i * sizeofMsgEntry)).take
        sizeofMsgEntry

/-- A message that is handed to `recv_appendentries` is within its array. -/
def Checked : EntriesRead → Prop
  | .rejected => True
  | .undefined => False
  | .accepted ae _ => ae.Within stream

/-- What has been read over the start of the array is what is obtained from there, element
by element. -/
theorem within_fill {front : List UInt8}
    (fits : front.length ≤ maxNumOfAppendEntriesLog * sizeofMsgEntry)
    (nonneg : 0 ≤ ae.header.nSize) (bounded : ae.header.nSize ≤ maxNumOfAppendEntriesLog)
    (size : front.length = entryBytes ae.header.nSize)
    (first : stream.take (entryBytes ae.header.nSize).toNat = front) :
    ({ ae with dEntries2 := ae.dEntries2.fill front fits } : MsgAppendEntries2).Within stream where
  nonneg := nonneg
  bounded := bounded
  whole := entryBytes_of_le nonneg bounded
  fits := by
    change entryBytes ae.header.nSize ≤ _
    omega
  received := by
    intro i counted
    change (i : Int) < ae.header.nSize at counted
    let filled : MsgAppendEntries2 := { ae with dEntries2 := ae.dEntries2.fill front fits }
    have inside : i < filled.elements.length := by
      rw [length_elements]
      omega
    have covered : i * sizeofMsgEntry + sizeofMsgEntry ≤ front.length := by
      have product := entryBytes_of_le nonneg bounded
      rw [sizeofMsgEntry] at product ⊢
      omega
    refine ⟨_, getEntry_of_lt filled counted inside, ?_⟩
    rw [first]
    refine (Block.bytes_getElem_records _ inside).trans ?_
    change ((front ++ _).drop _).take _ = _
    rw [List.drop_append_of_le_length (by omega), List.take_append_of_le_length]
    rw [List.length_drop]
    omega

/-- Within the array the loop is the one over a list. -/
theorem Within.appendEntries_eq {ae : MsgAppendEntries2} {stream : List UInt8}
    (within : ae.Within stream) {Node : Type} [DecidableEq Node]
    (populate : Block sizeofMsgEntry → MsgEntry) (s : RaftServer Node) :
    ae.appendEntries populate ae.header.nSize.toNat 0 s =
      RaftServer.appendMsgEntries ((ae.elements.take ae.header.nSize.toNat).map populate) s := by
  have nonneg := within.nonneg
  have bounded := within.bounded
  have notBehind : ¬ae.elements.length < 0 + ae.header.nSize.toNat := by
    rw [length_elements]
    omega
  rw [MsgAppendEntries2.appendEntries_eq ae populate _ (Nat.zero_le _) (by omega)]
  simp only [notBehind, and_false, if_false, List.drop_zero, Outcome.bind_returning]

/-- A negative number of entries is rejected, since `entries()` is then `NULL` and nothing
can be read, unless its byte count wraps to zero: that many bytes are always there. -/
theorem checked_of_neg (negative : ae.header.nSize < 0) :
    Checked stream (ae.receiveEntries stream) ↔ 24 * ae.header.nSize % 2 ^ 32 ≠ 0 := by
  rw [receiveEntries_of_neg ae stream negative, ne_eq, ← entryBytes_eq_zero_iff]
  by_cases empty : entryBytes ae.header.nSize = 0
  · rw [if_pos empty]
    exact iff_of_false (fun within => Int.not_lt.mpr within.nonneg negative) (not_not.mpr empty)
  · rw [if_neg empty]
    exact iff_of_true trivial empty

/-- A number of entries within the array is safe. -/
theorem checked_of_le (nonneg : 0 ≤ ae.header.nSize)
    (bounded : ae.header.nSize ≤ maxNumOfAppendEntriesLog) :
    Checked stream (ae.receiveEntries stream) := by
  have size := entryBytes_of_le nonneg bounded
  rcases Int.lt_or_eq_of_le nonneg with positive | none
  · have asked : sizeT (entryBytes ae.header.nSize) = (entryBytes ae.header.nSize).toNat := by
      rw [sizeT, size]
      rw [maxNumOfAppendEntriesLog] at bounded
      rw [sizeofMsgEntry]
      omega
    have fits : (stream.take (sizeT (entryBytes ae.header.nSize))).length ≤
        maxNumOfAppendEntriesLog * sizeofMsgEntry := by
      rw [List.length_take, asked, size]
      rw [sizeofMsgEntry]
      omega
    rw [receiveEntries_of_pos ae stream positive]
    simp only [dif_pos fits]
    split
    · trivial
    · exact within_fill ae stream fits nonneg bounded (not_not.mp ‹_›) (by rw [asked])
  · rw [receiveEntries_of_zero ae stream none.symm]
    exact ⟨nonneg, bounded, size, by rw [size, ← none]; decide, fun i counted => by omega⟩

/-- A number of entries beyond the array is only safe if the stream ends early enough.
Nothing in the source compares it with the size of the array. -/
theorem checked_of_gt (above : (maxNumOfAppendEntriesLog : Int) < ae.header.nSize) :
    Checked stream (ae.receiveEntries stream) ↔
      stream.length ≤ maxNumOfAppendEntriesLog * sizeofMsgEntry ∧
        stream.length < 24 * ae.header.nSize % 2 ^ 32 := by
  have positive : 0 < ae.header.nSize := Int.lt_of_le_of_lt (Int.natCast_nonneg _) above
  have sizes := entryBytes_cases ae.header.nSize
  have room : maxNumOfAppendEntriesLog * sizeofMsgEntry = 1536 := rfl
  rw [receiveEntries_of_pos ae stream positive]
  generalize 24 * ae.header.nSize % 2 ^ 32 = product at sizes
  generalize sizeT (entryBytes ae.header.nSize) = count at sizes
  simp only [List.length_take]
  split
  case isTrue fits =>
      split
      case isTrue short =>
          refine iff_of_true trivial ?_
          omega
      case isFalse whole =>
          refine iff_of_false (fun within => Int.not_le.mpr above within.bounded) ?_
          omega
  case isFalse overrun =>
      refine iff_of_false id ?_
      omega

/-! ### The session of the receiving thread -/

/-- Reading the entries leaves the header alone. -/
theorem header_of_accepted {accepted : MsgAppendEntries2} {unread : List UInt8}
    (result : (ae.receiveEntries stream).accepted? = some (accepted, unread)) :
    accepted.header = ae.header := by
  unfold receiveEntries at result
  split at result
  · dsimp only at result
    split at result
    · cases result
    · split at result
      · cases result
      · cases result
        rfl
  · cases result
    rfl

/-- With a positive number the message is accepted if its size is one of the array and as many
bytes arrive. -/
theorem unread_of_pos (positive : 0 < ae.header.nSize) :
    (ae.receiveEntries stream).accepted?.map Prod.snd =
      if 0 ≤ entryBytes ae.header.nSize ∧
          entryBytes ae.header.nSize ≤ maxNumOfAppendEntriesLog * sizeofMsgEntry ∧
          entryBytes ae.header.nSize ≤ stream.length then
        some (stream.drop (entryBytes ae.header.nSize).toNat)
      else none := by
  have sizes := entryBytes_cases ae.header.nSize
  rw [receiveEntries_of_pos ae stream positive]
  generalize 24 * ae.header.nSize % 2 ^ 32 = product at sizes
  generalize sizeT (entryBytes ae.header.nSize) = count at sizes
  generalize entryBytes ae.header.nSize = size at sizes
  simp only [List.length_take]
  split
  case isTrue fits =>
      split
      case isTrue short =>
          rw [if_neg (by omega)]
          rfl
      case isFalse whole =>
          have asked : count = size.toNat := by omega
          rw [if_pos (by omega), ← asked]
          rfl
  case isFalse overrun =>
      rw [if_neg (by omega)]
      rfl

/-- `readEntries` ends where `receiveEntries` accepts, with the bytes that have been read:
the model for sessions and the model with buffers agree. -/
theorem runOn_readEntries (nonzero : ae.header.nSize ≠ 0) :
    (readEntries ae.header.nSize).runOn stream =
      ((ae.receiveEntries stream).accepted?.map Prod.snd).map fun unread =>
        ⟨stream.take (entryBytes ae.header.nSize).toNat, [], unread⟩ := by
  rcases Int.lt_or_gt_of_ne nonzero with negative | positive
  · have notPositive : ¬0 < ae.header.nSize := Int.not_lt.mpr (Int.le_of_lt negative)
    rw [receiveEntries_of_neg ae stream negative, readEntries]
    by_cases empty : entryBytes ae.header.nSize = 0
    · simp [empty, EntriesRead.accepted?]
    · simp [empty, notPositive, EntriesRead.accepted?]
  · rw [unread_of_pos ae stream positive, readEntries]
    generalize entryBytes ae.header.nSize = size
    by_cases empty : size = 0
    · have room : (0 : Int) ≤ maxNumOfAppendEntriesLog * sizeofMsgEntry := by decide
      simp [empty, room]
    · rw [if_neg empty]
      by_cases fits : 0 < size ∧ size ≤ maxNumOfAppendEntriesLog * sizeofMsgEntry
      · rw [if_pos ⟨positive, fits⟩, Session.runOn]
        by_cases enough : size ≤ stream.length
        · rw [dif_pos (by omega), if_pos ⟨by omega, fits.2, enough⟩]
          rfl
        · rw [dif_neg (by omega), if_neg (by omega)]
          rfl
      · rw [if_neg (by omega), if_neg (by omega)]
        rfl

/-- The session of the receiving thread ends with the messages that are accepted here, and leaves
the same part of the stream. -/
theorem runOn_seedSwitch_appendentries (o : ByteOrder) (r : Receiver)
    (header : Block sizeOfInitialRcvOfMsgApp) (stream : List UInt8) :
    (seedSwitch o r (some .appendentries)).runOn (header.bytes ++ stream) =
      (receive o header stream).accepted?.map fun result =>
        ⟨some (.appendentries result.1.header
          (stream.take (entryBytes result.1.header.nSize).toNat)), [], result.2⟩ := by
  let ae : MsgAppendEntries2 := { new with header := AppendHeader.ofImage o header.bytes }
  have result : receive o header stream = ae.receiveEntries stream := rfl
  have front : AppendHeader.ofImage o header.bytes = ae.header := rfl
  rw [seedSwitch, Session.runOn_read, result]
  simp only [front]
  by_cases nonzero : ae.header.nSize = 0
  · rw [if_neg (not_not.mpr nonzero), receiveEntries_of_zero ae stream nonzero]
    have none : entryBytes ae.header.nSize = 0 := by rw [nonzero]; rfl
    simp [EntriesRead.accepted?, none]
  · rw [if_pos nonzero, Session.runOn_bind, runOn_readEntries ae stream nonzero]
    cases handed : (ae.receiveEntries stream).accepted? with
    | none => rfl
    | some result =>
        obtain ⟨accepted, unread⟩ := result
        simp [header_of_accepted ae stream handed]

/-- The number of entries in a header is safe if it is at most that of the array and not negative,
if it is negative and the bytes asked for are not cut to none, or if it is larger than the array
but the connection closes before all bytes or more than the array holds have arrived. -/
theorem entry_count_within_iff (o : ByteOrder) (header : Block sizeOfInitialRcvOfMsgApp)
    (stream : List UInt8) :
    Checked stream (receive o header stream) ↔
      (0 ≤ intField o header.bytes 4 ∧ intField o header.bytes 4 ≤ maxNumOfAppendEntriesLog) ∨
      (intField o header.bytes 4 < 0 ∧ 24 * intField o header.bytes 4 % 2 ^ 32 ≠ 0) ∨
      (maxNumOfAppendEntriesLog < intField o header.bytes 4 ∧
        stream.length ≤ maxNumOfAppendEntriesLog * sizeofMsgEntry ∧
        stream.length < 24 * intField o header.bytes 4 % 2 ^ 32) := by
  let ae : MsgAppendEntries2 := { new with header := AppendHeader.ofImage o header.bytes }
  change Checked stream (ae.receiveEntries stream) ↔
    (0 ≤ ae.header.nSize ∧ ae.header.nSize ≤ maxNumOfAppendEntriesLog) ∨
    (ae.header.nSize < 0 ∧ 24 * ae.header.nSize % 2 ^ 32 ≠ 0) ∨
    (maxNumOfAppendEntriesLog < ae.header.nSize ∧
      stream.length ≤ maxNumOfAppendEntriesLog * sizeofMsgEntry ∧
      stream.length < 24 * ae.header.nSize % 2 ^ 32)
  rcases Int.lt_or_le ae.header.nSize 0 with negative | nonneg
  · have notAbove : ¬(maxNumOfAppendEntriesLog : Int) < ae.header.nSize := by omega
    rw [checked_of_neg ae stream negative]
    simp [negative, Int.not_le.mpr negative, notAbove]
  · rcases Int.lt_or_le maxNumOfAppendEntriesLog ae.header.nSize with above | bounded
    · rw [checked_of_gt ae stream above]
      simp [above, Int.not_le.mpr above, Int.not_lt.mpr nonneg]
    · exact iff_of_true (checked_of_le ae stream nonneg bounded) (Or.inl ⟨nonneg, bounded⟩)

/-- A header that announces 65 entries, one more than the array has room for. -/
theorem entry_count_overruns :
    ¬Checked (List.replicate 1560 0)
      (receive .little ⟨ByteOrder.little.image [1, 0, 0, 0, 65, 0], rfl⟩
        (List.replicate 1560 0)) := by
  have above : (maxNumOfAppendEntriesLog : Int) <
      (AppendHeader.ofImage .little (ByteOrder.little.image [1, 0, 0, 0, 65, 0])).nSize := by
    decide
  rw [receive, checked_of_gt _ _ above, List.length_replicate]
  exact fun short => absurd short.1 (by decide)

end MsgAppendEntries2

end Tcp

end CppRaft
