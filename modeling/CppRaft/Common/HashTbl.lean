import Mathlib.Data.Nat.Size
import CppRaft.Nodes.Table
import CppRaft.Store.Chained

/-!
# The hash table

`HashTbl` keeps its items in chains that grow at the head. The number of chains is the requested
size rounded up to a power of two, and the mask made of it picks the chain of a key. Keys may
repeat: an item hides the older ones with its key until it is removed.

Several tables share the memory of the items. `size_t` has 64 bits and `int` has 32.
-/

namespace CppRaft

namespace Common

open Machine Store

/-- The memory of the items. The number of those that are allocated bounds the loops over the
chains. -/
structure ItemMemory (D : Type) where
  items : Heap ItemPtr (HashEntry D) := fun _ => none
  live : ℕ := 0

/-- The loop of the constructor: shift the requested size until nothing is left of it. -/
def shiftLoop (initSize : ℕ) : (bound i : ℕ) → Option ℕ
  | bound, i =>
      if initSize >>> i = 0 then some i
      else
        match bound with
        | 0 => none
        | bound + 1 => shiftLoop initSize bound (i + 1)

/-- The number of chains for a requested size. The power of two is an `int`: a shift by 31 or
more is undefined. -/
def roundedSize (initSize : ℕ) : Option ℕ :=
  if initSize = 0 then some 64
  else do
    let i ← shiftLoop initSize 64 0
    if i - 1 < 31 then
      if 1 <<< (i - 1) ≠ initSize then some (1 <<< (i - 1) <<< 1) else some (1 <<< (i - 1))
    else none

/-- The loop of the constructor counts the bits of the size. -/
theorem shiftLoop_eq {initSize : ℕ} {bound i : ℕ} (reached : i ≤ initSize.size)
    (enough : initSize.size ≤ i + bound) : shiftLoop initSize bound i = some initSize.size := by
  induction bound generalizing i with
  | zero =>
      obtain rfl : i = initSize.size := Nat.le_antisymm reached enough
      have shifted : initSize >>> initSize.size = 0 := by
        rw [Nat.shiftRight_eq_div_pow, Nat.div_eq_of_lt (Nat.lt_size_self initSize)]
      rw [shiftLoop, if_pos shifted]
  | succ bound ih =>
      rw [shiftLoop]
      split
      · rename_i shifted
        rw [Nat.shiftRight_eq_div_pow, Nat.div_eq_zero_iff] at shifted
        have small : initSize < 2 ^ i :=
          shifted.resolve_left (Nat.pos_iff_ne_zero.mp (Nat.two_pow_pos i))
        rw [Nat.le_antisymm reached (Nat.size_le.mpr small)]
      · rename_i left
        have more : i < initSize.size := by
          apply Nat.lt_size.mpr
          by_contra small
          rw [Nat.shiftRight_eq_div_pow, Nat.div_eq_of_lt (Nat.not_le.mp small)] at left
          exact left rfl
        exact ih more (by omega)

/-- Every size below `2 ^ 31` is rounded up to a power of two. -/
theorem roundedSize_eq {initSize : ℕ} (small : initSize < 2 ^ 31) :
    ∃ k ≤ 31, roundedSize initSize = some (2 ^ k) ∧ initSize ≤ 2 ^ k := by
  by_cases zero : initSize = 0
  · exact ⟨6, by decide, by rw [roundedSize, if_pos zero]; rfl, by rw [zero]; exact Nat.zero_le _⟩
  have bits : initSize.size ≤ 31 := Nat.size_le.mpr small
  have positive : 0 < initSize.size := Nat.size_pos.mpr (Nat.pos_of_ne_zero zero)
  have shifts : initSize.size - 1 < 31 := by omega
  have below : initSize < 2 ^ (initSize.size - 1 + 1) := by
    rw [Nat.sub_add_cancel positive]
    exact Nat.lt_size_self initSize
  have looped : shiftLoop initSize 64 0 = some initSize.size :=
    shiftLoop_eq (Nat.zero_le _) (by omega)
  simp only [roundedSize, if_neg zero, looped, Option.bind_eq_bind, Option.bind_some,
    if_pos shifts, Nat.one_shiftLeft]
  by_cases whole : 2 ^ (initSize.size - 1) = initSize
  · exact ⟨initSize.size - 1, by omega, by rw [if_neg (not_not.mpr whole)],
      Nat.le_of_eq whole.symm⟩
  · refine ⟨initSize.size - 1 + 1, by omega, ?_, Nat.le_of_lt below⟩
    rw [if_pos whole, Nat.shiftLeft_succ, Nat.shiftLeft_zero, Nat.pow_succ, Nat.mul_comm]

/-- The number of chains is never zero and has at most 32 bits. -/
theorem roundedSize_bounds {initSize size : ℕ} (rounded : roundedSize initSize = some size) :
    0 < size ∧ size ≤ 2 ^ 31 := by
  unfold roundedSize at rounded
  split at rounded
  · cases rounded
    decide
  · obtain ⟨i, -, rounded⟩ := Option.bind_eq_some_iff.mp rounded
    split at rounded
    · rename_i shifts
      have power : 2 ^ (i - 1) ≤ 2 ^ 30 := Nat.pow_le_pow_right (by decide) (by omega)
      have positive : 0 < 2 ^ (i - 1) := Nat.two_pow_pos _
      rw [Nat.one_shiftLeft] at rounded
      split at rounded
      · cases rounded
        rw [Nat.shiftLeft_succ, Nat.shiftLeft_zero]
        omega
      · cases rounded
        omega
    · cases rounded

/-- `HashTbl`: the array of chains, the number of pointers it was allocated for, and
`m_unRoundedTableSizeMin1`. -/
structure HashTbl where
  table : ℕ → Option ItemPtr
  tableSize : ℕ
  tableSizeMin1 : UInt64
  sized : tableSizeMin1.toNat + 1 = tableSize
  small : tableSize ≤ 2 ^ 31

namespace HashTbl

variable {D : Type}

/-- The mask of a table is one less than its size. -/
theorem sized_of_rounded {initSize size : ℕ} (rounded : roundedSize initSize = some size) :
    (UInt64.ofNat (size - 1)).toNat + 1 = size := by
  obtain ⟨positive, bounded⟩ := roundedSize_bounds rounded
  rw [UInt64.toNat_ofNat_of_lt' (by rw [UInt64.size]; omega)]
  exact Nat.sub_add_cancel positive

/-- The constructor. -/
def new (initSize : ℕ) : Option HashTbl :=
  match rounded : roundedSize initSize with
  | none => none
  | some size =>
      some ⟨fun _ => none, size, .ofNat (size - 1), sized_of_rounded rounded,
        (roundedSize_bounds rounded).2⟩

/-- The chain of a key, as a `size_t`. -/
def unHash (t : HashTbl) (key : Key) : ℕ :=
  (hash1 key &&& t.tableSizeMin1).toNat

/-- The chain of a key, as a `uint32_t`. -/
def unHash32 (t : HashTbl) (key : Key) : ℕ :=
  t.unHash key % 2 ^ 32

/-- An element of the array. -/
def head? (t : HashTbl) (index : ℕ) : Option (Option ItemPtr) :=
  if index < t.tableSize then some (t.table index) else none

/-- Let a new item be the head of a chain. -/
def addItem (t : HashTbl) (index : ℕ) (item : ItemPtr) (key : Key) (data : D)
    (m : ItemMemory D) : Option (HashTbl × ItemMemory D) := do
  let head ← t.head? index
  let items := m.items.alloc item ⟨none, none, ⟨key, data⟩⟩
  let items ← items.setNext (some item) head
  let items ← items.setPrev head (some item)
  pure ({ t with table := Function.update t.table index (some item) }, ⟨items, m.live + 1⟩)

/-- `AddEntry` with the item it allocates. -/
def addEntry (t : HashTbl) (item : ItemPtr) (key : Key) (data : D) (m : ItemMemory D) :
    Option (Int × HashTbl × ItemMemory D) :=
  (t.addItem (t.unHash key) item key data m).map fun after => (0, after)

/-- `AddEntry2` with the item it allocates; it returns the copy of the key in the item. -/
def addEntry2 (t : HashTbl) (item : ItemPtr) (key : Key) (data : D) (m : ItemMemory D) :
    Option (Option ItemPtr × HashTbl × ItemMemory D) :=
  (t.addItem (t.unHash32 key) item key data m).map fun after => (some item, after)

/-- The first item of a chain with this key: the same length and the same bytes. -/
def findItem (t : HashTbl) (key : Key) (m : ItemMemory D) : Option (Option ItemPtr) := do
  let head ← t.head? (t.unHash32 key)
  m.items.search (fun entry => decide (entry.key = key)) m.live head

/-- `FindEntry`: the data it finds. -/
def findEntry (t : HashTbl) (key : Key) (m : ItemMemory D) : Option (Option D) := do
  match ← t.findItem key m with
  | none => pure none
  | some item =>
      let cell ← m.items item
      pure (some cell.data.data)

/-- `RemoveEntry2`: the data of the item it removes. The destructor of the item links its
neighbours once more. -/
def removeEntry2 (t : HashTbl) (key : Key) (m : ItemMemory D) :
    Option (Option D × HashTbl × ItemMemory D) := do
  match ← t.findItem key m with
  | none => pure (none, t, m)
  | some item =>
      let cell ← m.items item
      let head ← t.head? (t.unHash32 key)
      let table :=
        if some item = head then Function.update t.table (t.unHash32 key) cell.next else t.table
      let items ← m.items.unlink item
      let items ← items.unlink item
      pure (some cell.data.data, { t with table := table }, ⟨items.free item, m.live - 1⟩)

/-- `RemoveEntry`. -/
def removeEntry (t : HashTbl) (key : Key) (m : ItemMemory D) :
    Option (Bool × HashTbl × ItemMemory D) :=
  (t.removeEntry2 key m).map fun (removed, after) => (removed.isSome, after)

/-- Every index that is computed for a key is one of the array. -/
theorem unHash_lt (t : HashTbl) (key : Key) : t.unHash key < t.tableSize := by
  rw [unHash, UInt64.toNat_and, ← t.sized]
  exact Nat.lt_succ_of_le Nat.and_le_right

/-- Cutting the index to 32 bits changes nothing. -/
theorem unHash32_eq (t : HashTbl) (key : Key) : t.unHash32 key = t.unHash key := by
  apply Nat.mod_eq_of_lt
  have inside := t.unHash_lt key
  have small := t.small
  omega

/-- The bucket of a key is inside the table. -/
theorem head?_unHash (t : HashTbl) (key : Key) :
    t.head? (t.unHash key) = some (t.table (t.unHash key)) :=
  if_pos (t.unHash_lt key)

/-- The table holds exactly these entries, the newest first. -/
structure Holds (m : ItemMemory D) (t : HashTbl) (entries : List (ItemPtr × HashEntry D)) :
    Prop where
  chained : m.items.Chained t.table (fun entry => t.unHash entry.key) entries
  live : entries.length ≤ m.live

/-- The first entry with a key. -/
def entryOf? (key : Key) (entries : List (ItemPtr × HashEntry D)) :
    Option (ItemPtr × HashEntry D) :=
  entries.find? fun e => decide (e.2.key = key)

/-- An entry that is found is there and has the key. -/
theorem entryOf?_eq_some {key : Key} {entries : List (ItemPtr × HashEntry D)}
    {e : ItemPtr × HashEntry D} (found : entryOf? key entries = some e) :
    e ∈ entries ∧ e.2.key = key :=
  ⟨List.mem_of_find?_eq_some found, by simpa using List.find?_some found⟩

namespace Holds

variable {m : ItemMemory D} {t : HashTbl} {entries : List (ItemPtr × HashEntry D)}

/-- The constructed table. -/
theorem of_new {initSize : ℕ} (constructed : new initSize = some t) (m : ItemMemory D) :
    Holds m t [] := by
  unfold new at constructed
  split at constructed
  · cases constructed
  · cases constructed
    exact ⟨.empty _ _, Nat.zero_le _⟩

/-- Memory that changes elsewhere. -/
theorem congr {m' : ItemMemory D} (holds : Holds m t entries)
    (same : ∀ p ∈ entries.map Prod.fst, m'.items p = m.items p) (live : entries.length ≤ m'.live) :
    Holds m' t entries :=
  ⟨holds.chained.congr same, live⟩

/-- A chain search finds the first entry with the key. -/
theorem findItem_eq (holds : Holds m t entries) (key : Key) :
    t.findItem key m = some ((entryOf? key entries).map Prod.fst) := by
  have own (entry : HashEntry D) (passes : decide (entry.key = key) = true) :
      t.unHash entry.key = t.unHash key :=
    congrArg t.unHash (of_decide_eq_true passes)
  rw [findItem, t.unHash32_eq, t.head?_unHash]
  exact holds.chained.search_own own holds.live

/-- A lookup finds the data of that entry. -/
theorem findEntry_eq (holds : Holds m t entries) (key : Key) :
    t.findEntry key m = some ((entryOf? key entries).map fun e => e.2.data) := by
  rw [findEntry, holds.findItem_eq]
  cases found : entryOf? key entries with
  | none => rfl
  | some e =>
      have data := holds.chained.data e (entryOf?_eq_some found).1
      obtain ⟨cell, read, carried⟩ := Option.map_eq_some_iff.mp data
      simp only [Option.map_some, Option.bind_eq_bind, Option.bind_some, read, carried,
        Option.pure_def]

/-- A new item comes before all the others. -/
theorem addItem (holds : Holds m t entries) {item : ItemPtr} (free : m.items item = none)
    (key : Key) (data : D) :
    ∃ t' m', t.addItem (t.unHash key) item key data m = some (t', m') ∧
      Holds m' t' ((item, ⟨key, data⟩) :: entries) ∧ t'.tableSize = t.tableSize ∧
      m'.live = m.live + 1 ∧
      ∀ p, p ∉ ((item, (⟨key, data⟩ : HashEntry D)) :: entries).map Prod.fst →
        m'.items p = m.items p := by
  obtain ⟨items, assigned, chained, elsewhere⟩ :=
    holds.chained.insert (holds.chained.notMem free) ⟨key, data⟩
  refine ⟨{ t with table := Function.update t.table (t.unHash key) (some item) },
    ⟨items, m.live + 1⟩, ?_, ⟨chained, Nat.succ_le_succ holds.live⟩, rfl, rfl, elsewhere⟩
  simp only [HashTbl.addItem, t.head?_unHash, Heap.setNext_alloc, Option.bind_eq_bind,
    Option.bind_some, Option.pure_def]
  exact congrArg (Option.bind · _) assigned

/-- The first item with a key is taken out and released. -/
theorem removeEntry2 {before after : List (ItemPtr × HashEntry D)} {item : ItemPtr}
    {entry : HashEntry D} (holds : Holds m t (before ++ (item, entry) :: after))
    (first : ∀ e ∈ before, e.2.key ≠ entry.key) :
    ∃ t' m', t.removeEntry2 entry.key m = some (some entry.data, t', m') ∧
      Holds m' t' (before ++ after) ∧ t'.tableSize = t.tableSize ∧ m'.live = m.live - 1 ∧
      m'.items item = none ∧
      ∀ p, p ∉ (before ++ (item, entry) :: after).map Prod.fst → m'.items p = m.items p := by
  have found : entryOf? entry.key (before ++ (item, entry) :: after) = some (item, entry) := by
    rw [entryOf?, List.find?_append, List.find?_eq_none.mpr (by simpa using first),
      Option.none_or, List.find?_cons, decide_eq_true rfl]
  obtain ⟨cell, items, read, unlinked, again, chained, elsewhere⟩ := holds.chained.remove
  have carried : cell.data = entry := by
    have data := holds.chained.data (item, entry) (entryOf?_eq_some found).1
    rw [Heap.dataAt, read, Option.map_some, Option.some.injEq] at data
    exact data
  refine ⟨{ t with
      table := if some item = t.table (t.unHash entry.key) then
        Function.update t.table (t.unHash entry.key) cell.next else t.table },
    ⟨items.free item, m.live - 1⟩, ?_, ⟨chained, ?_⟩, rfl, rfl, Function.update_self .., elsewhere⟩
  · simp only [HashTbl.removeEntry2, holds.findItem_eq, found, Option.map_some, read, carried,
      t.unHash32_eq, t.head?_unHash, unlinked, again, Option.bind_eq_bind, Option.bind_some,
      Option.pure_def]
  · have counted := holds.live
    rw [List.length_append, List.length_cons] at counted
    show (before ++ after).length ≤ m.live - 1
    rw [List.length_append]
    omega

/-- Removing a key that no entry has changes nothing. -/
theorem removeEntry2_absent (holds : Holds m t entries) {key : Key}
    (absent : entryOf? key entries = none) : t.removeEntry2 key m = some (none, t, m) := by
  rw [HashTbl.removeEntry2, holds.findItem_eq, absent]
  rfl

end Holds

end HashTbl

end Common

end CppRaft
