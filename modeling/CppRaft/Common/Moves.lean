import CppRaft.Common.Containers

/-!
# Moving nodes between containers

`MoveItemToOtherList` enters the node in the other hash table before it deletes the entry of its
own one, and never asks whether the other table has the key. `MoveContentToOtherList` exchanges
the hash tables if the other container is empty. If it is not, the entry of each node is deleted
first, and the key of the new one is then read through the pointer to the deleted entry.
-/

namespace CppRaft

namespace Common

open Machine Store

namespace Container

/-- `MoveItemToOtherList`, with the hash item that it allocates: the container, the other one and
the memory after it. -/
def moveItemToOtherList (item : ItemPtr) (node : NodePtr) (c other : Container) (m : Memory) :
    Option (Container × Container × Memory) := do
  let cell ← m.nodes node
  let oldKey := cell.data.key
  let key ← m.keyBytes oldKey (castLength cell.data.keyLength)
  let (otherHash, m) ← enter other.hash item key node m
  let key ← m.keyBytes oldKey cell.data.keyLength
  let (_, hash, entries) ← c.hash.removeEntry key m.entries
  let (list, otherList, nodes) ← c.list.moveItemToOtherList node other.list m.nodes
  pure (⟨hash, list⟩, ⟨otherHash, otherList⟩, ⟨nodes, entries⟩)

/-- The loop of `MoveContentToOtherList` over the nodes, with the hash items that it allocates. -/
def moveEntries : (bound : ℕ) → Option NodePtr → List ItemPtr → (hash otherHash : HashTbl) →
    Memory → Option (HashTbl × HashTbl × Memory)
  | _, none, _, hash, otherHash, m => some (hash, otherHash, m)
  | 0, some _, _, _, _, _ => none
  | bound + 1, some node, supply, hash, otherHash, m => do
      let cell ← m.nodes node
      let key ← m.keyBytes cell.data.key cell.data.keyLength
      let (_, hash, entries) ← hash.removeEntry key m.entries
      let m := { m with entries := entries }
      -- The key is read once more, through the pointer to the entry just deleted.
      let key ← m.keyBytes cell.data.key (castLength cell.data.keyLength)
      let item ← supply.head?
      let (otherHash, m) ← enter otherHash item key node m
      let cell ← m.nodes node
      moveEntries bound cell.next supply.tail hash otherHash m

/-- The hash tables in `MoveContentToOtherList`: an empty one is exchanged for the other. -/
def moveHashes (supply : List ItemPtr) (c other : Container) (m : Memory) :
    Option (HashTbl × HashTbl × Memory) :=
  if other.list.count = 0 then some (other.hash, c.hash, m)
  else moveEntries c.list.bound c.list.first supply c.hash other.hash m

/-- `MoveContentToOtherList`. -/
def moveContentToOtherList (supply : List ItemPtr) (c other : Container) (m : Memory) :
    Option (Container × Container × Memory) := do
  let (hash, otherHash, m) ← c.moveHashes supply other m
  let (list, otherList, nodes) ← c.list.moveContentToOtherList other.list m.nodes
  pure (⟨hash, list⟩, ⟨otherHash, otherList⟩, { m with nodes := nodes })

end Container

/-- After a move both containers satisfy the invariant again, no node is lost, and the moved ones
are found in the other container and not in their own under the keys they had. -/
def Moved (slotsA slotsB moved : List Slot) (after : Container × Container × Memory) : Prop :=
  ∃ slotsA' slotsB', Pair after.2.2 after.1 after.2.1 slotsA' slotsB' ∧
    ((slotsA' ++ slotsB').map Slot.node).Perm ((slotsA ++ slotsB).map Slot.node) ∧
    ∀ e ∈ moved, after.2.1.findEntry e.key after.2.2 = some (some e.node) ∧
      after.1.findEntry e.key after.2.2 = some none

namespace Pair

variable {m : Memory} {a b : Container} {slotsA slotsB : List Slot}

/-- `AddData` of a node that is in neither container leaves the other one as it is. -/
theorem addData (pair : Pair m a b slotsA slotsB) (e : Slot) (allocated : m.nodes e.node ≠ none)
    (outsideA : e.node ∉ slotsA.map Slot.node) (outsideB : e.node ∉ slotsB.map Slot.node)
    (free : m.entries.items e.item = none) (short : e.key.length < 2 ^ 32)
    (absent : e.key ∉ slotsA.map Slot.key) (room : a.list.count + 1 ≤ maxCount) :
    ∃ a' m', a.addData e.node e.item e.key m = some (true, a', m') ∧
      Pair m' a' b (slotsA ++ [e]) slotsB ∧
      (∀ p, p ≠ e.node → p ∉ slotsA.map Slot.node → m'.nodes p = m.nodes p) ∧
      ∀ p, p ≠ e.item → p ∉ slotsA.map Slot.item → m'.entries.items p = m.entries.items p := by
  obtain ⟨a', m', added, first, grown, nodes, items⟩ :=
    pair.first.addData e allocated outsideA free short absent room
  have counted := pair.live
  have newItem := pair.second.hashed.item_notMem free
  have second : b.Holds m' slotsB := by
    refine pair.second.congr (fun p member => nodes p ?_ fun inA => pair.nodes inA member)
      (fun p member => items p ?_ fun inA => pair.items inA member) (by omega)
    · exact fun same => outsideB (same ▸ member)
    · exact fun same => newItem (same ▸ member)
  refine ⟨a', m', added, ⟨first, second, ?_, ?_, ?_⟩, nodes, items⟩
  · rw [List.map_append, List.map_singleton]
    exact List.disjoint_append_left.mpr ⟨pair.nodes, List.singleton_disjoint.mpr outsideB⟩
  · rw [List.map_append, List.map_singleton]
    exact List.disjoint_append_left.mpr ⟨pair.items, List.singleton_disjoint.mpr newItem⟩
  · rw [List.length_append, List.length_singleton]
    omega

/-- The entry of a node goes from one hash table to the other; the key of the new one is cut to the
cast length. -/
theorem entry_moved {before after : List Slot} {e : Slot}
    (pair : Pair m a b (before ++ e :: after) slotsB) {item : ItemPtr}
    (free : m.entries.items item = none) {cell : Cell NodePtr NodeKey}
    (read : m.nodes e.node = some cell) :
    ∃ otherHash m' hash items,
      enter b.hash item (castKey e.key) e.node m = some (otherHash, m') ∧
      m'.nodes = Function.update m.nodes e.node
        (some { cell with data := { cell.data with key := some item } }) ∧
      m'.keyBytes (some e.item) e.key.length = some e.key ∧
      a.hash.removeEntry e.key m'.entries = some (true, hash, items) ∧
      Entered items hash (before ++ after) ∧
      Entered items otherHash (⟨castKey e.key, e.node, item⟩ :: slotsB) ∧
      items.live = m.entries.live := by
  have member : e ∈ before ++ e :: after := List.mem_append_right _ List.mem_cons_self
  have newItem := pair.first.hashed.item_notMem free
  have counted := pair.live
  have nonempty : 0 < (before ++ e :: after).length := List.length_pos_of_mem member
  obtain ⟨otherHash, m', entered, hashedB, nodes, grown, elsewhere⟩ :=
    enter_eq pair.second.hashed free (castKey e.key) read
  -- The new entry leaves the items of the first table alone, and so the other way round.
  have hashedA : Entered m'.entries a.hash (before ++ e :: after) := by
    refine pair.first.hashed.congr (fun p inA => elsewhere p ?_ ?_) (by omega)
    · exact fun same => newItem (same ▸ inA)
    · exact fun inB => pair.items inA inB
  obtain ⟨hash, items, removed, hashedA', -, shrunk, elsewhere'⟩ :=
    hashedA.removeEntry pair.first.keys
  have hashedB' : Entered items otherHash (⟨castKey e.key, e.node, item⟩ :: slotsB) := by
    refine hashedB.congr (fun p inB => elsewhere' p fun inA => ?_) ?_
    · rw [List.map_cons, List.mem_cons] at inB
      rcases inB with rfl | inB
      · exact newItem inA
      · exact pair.items inA inB
    · rw [List.length_cons]
      omega
  have wholeKey : m'.keyBytes (some e.item) e.key.length = some e.key := by
    rw [keyBytes_eq (hashedA.data member) (Nat.le_refl _), List.take_length]
  exact ⟨otherHash, m', hash, items, entered, nodes, wholeKey, removed, hashedA', hashedB',
    by omega⟩

/-- What `MoveItemToOtherList` leaves, whatever the other container holds. -/
theorem moveItem_eq {before after : List Slot} {e : Slot}
    (pair : Pair m a b (before ++ e :: after) slotsB) {item : ItemPtr}
    (free : m.entries.items item = none) (room : b.list.count + 1 ≤ maxCount) :
    ∃ a' b' m', a.moveItemToOtherList item e.node b m = some (a', b', m') ∧
      a'.Holds m' (before ++ after) ∧
      Entered m'.entries b'.hash (⟨castKey e.key, e.node, item⟩ :: slotsB) ∧
      b'.list.Holds m'.nodes (slotsB.map Slot.node ++ [e.node]) ∧
      m'.nodes.dataAt e.node = some ⟨some item, e.key.length⟩ ∧
      (∀ p, p ≠ e.node → m'.nodes.dataAt p = m.nodes.dataAt p) ∧
      m'.entries.live = m.entries.live := by
  have member : e ∈ before ++ e :: after := List.mem_append_right _ List.mem_cons_self
  have fewer := sublist_middle before after e
  obtain ⟨cell, read, carried⟩ := Option.map_eq_some_iff.mp (pair.first.nodeData e member)
  obtain ⟨otherHash, m₁, hash, items, entered, nodes₁, wholeKey, removed, hashedA, hashedB, live⟩ :=
    pair.entry_moved free read
  have links (p : NodePtr) : m₁.nodes.linksAt p = m.nodes.linksAt p := by
    rw [nodes₁]
    exact Heap.linksAt_update read _ p
  have listedA := pair.first.listed.congr_links fun p _ => links p
  have apart := List.disjoint_symm pair.nodes
  rw [List.map_append, List.map_cons] at listedA apart
  obtain ⟨list, otherList, nodes, moved, listedA', listedB, relinks⟩ :=
    listedA.moveItemToOtherList (pair.second.listed.congr_links fun p _ => links p) apart room
  have dataElsewhere (p : NodePtr) (other : p ≠ e.node) : nodes.dataAt p = m.nodes.dataAt p := by
    rw [relinks.data, nodes₁]
    exact Heap.dataAt_update_of_ne other _
  refine ⟨⟨hash, list⟩, ⟨otherHash, otherList⟩, ⟨nodes, items⟩, ?_,
    ⟨pair.first.keys.sublist (fewer.map _), ?_, ?_, hashedA, ?_⟩, hashedB, listedB, ?_,
    dataElsewhere, live⟩
  · have oldKey : m.keyBytes (some e.item) (castLength e.key.length) = some (castKey e.key) :=
      keyBytes_eq (pair.first.hashed.data member) (Nat.mod_le _ _)
    simp only [Container.moveItemToOtherList, read, carried, oldKey, entered, wholeKey, removed,
      moved, Option.bind_eq_bind, Option.bind_some, Option.pure_def]
  · rw [List.map_append]
    exact listedA'
  · have fits := pair.first.counted
    rw [pair.first.listed.count] at fits
    rw [listedA'.count]
    simp only [List.length_map, List.length_append, List.length_cons] at fits ⊢
    omega
  · intro e' kept
    have other : e'.node ≠ e.node := fun same =>
      notMem_map_middle pair.first.listed.distinct (same ▸ List.mem_map_of_mem kept)
    exact (dataElsewhere _ other).trans (pair.first.nodeData e' (fewer.subset kept))
  · rw [relinks.data, nodes₁, Heap.dataAt, Function.update_self, Option.map_some, carried]

/-- A node is moved under a short key that the other container does not have. -/
theorem moveItem_moved {e : Slot} (pair : Pair m a b slotsA slotsB) (member : e ∈ slotsA)
    {item : ItemPtr} (free : m.entries.items item = none) (room : b.list.count + 1 ≤ maxCount)
    (short : e.key.length < 2 ^ 32) (absent : e.key ∉ slotsB.map Slot.key) :
    ∃ after, a.moveItemToOtherList item e.node b m = some after ∧
      Moved slotsA slotsB [e] after := by
  obtain ⟨before, after, rfl⟩ := List.append_of_mem member
  obtain ⟨a', b', m', moved, first, hashedB, listedB, dataHere, dataElsewhere, live⟩ :=
    pair.moveItem_eq free room
  rw [castKey_of_lt short] at hashedB
  let e' : Slot := ⟨e.key, e.node, item⟩
  have second : b'.Holds m' (slotsB ++ [e']) :=
    pair.second.append absent room listedB hashedB dataHere dataElsewhere
  have fewer := sublist_middle before after e
  have gone : e.node ∉ (before ++ after).map Slot.node :=
    notMem_map_middle pair.first.listed.distinct
  refine ⟨(a', b', m'), moved, before ++ after, slotsB ++ [e'], ⟨first, second, ?_, ?_, ?_⟩, ?_, ?_⟩
  · rw [List.map_append, List.map_append, List.map_singleton, ← List.map_append]
    apply List.disjoint_append_right.mpr
    exact ⟨List.disjoint_of_subset_left (fewer.map _).subset pair.nodes,
      List.disjoint_singleton.mpr gone⟩
  · rw [List.map_append, List.map_append, List.map_singleton, ← List.map_append]
    apply List.disjoint_append_right.mpr
    refine ⟨List.disjoint_of_subset_left (fewer.map _).subset pair.items,
      List.disjoint_singleton.mpr fun inA => ?_⟩
    exact pair.first.hashed.item_notMem free ((fewer.map _).subset inA)
  · have counted := pair.live
    simp only [List.length_append, List.length_cons, List.length_nil] at counted ⊢
    omega
  · simp only [List.map_append, List.map_cons, List.map_nil, List.append_assoc]
    refine List.Perm.append_left _ ?_
    rw [← List.append_assoc]
    exact List.perm_append_singleton _ _
  · intro other inMoved
    rw [List.mem_singleton.mp inMoved]
    refine ⟨?_, first.findEntry_of_notMem (notMem_map_middle pair.first.keys)⟩
    exact second.findEntry_of_mem (e := e')
      (List.mem_append_right _ (List.mem_singleton_self e'))

/-- A move that keeps the containers is one of a short key that the other container does not
have. -/
theorem moveItem_of_moved {e : Slot} (pair : Pair m a b slotsA slotsB) (member : e ∈ slotsA)
    {item : ItemPtr} (free : m.entries.items item = none) (room : b.list.count + 1 ≤ maxCount)
    {result : Container × Container × Memory}
    (moved : a.moveItemToOtherList item e.node b m = some result)
    (kept : Moved slotsA slotsB [e] result) :
    e.key.length < 2 ^ 32 ∧ e.key ∉ slotsB.map Slot.key := by
  obtain ⟨before, after, rfl⟩ := List.append_of_mem member
  obtain ⟨a', b', m', moved', -, hashedB, listedB, dataHere, dataElsewhere, -⟩ :=
    pair.moveItem_eq free room
  cases moved.symm.trans moved'
  obtain ⟨slotsA', slotsB', pair', -, found⟩ := kept
  -- The slot of a node is read off the node and its item.
  have slotOf {e' e₀ : Slot} (member' : e' ∈ slotsB')
      (inB : e₀ ∈ (⟨castKey e.key, e.node, item⟩ : Slot) :: slotsB) {length : ℕ}
      (nodeData : m'.nodes.dataAt e'.node = some ⟨some e₀.item, length⟩) :
      e'.key = e₀.key ∧ e'.node = e₀.node := by
    have sameItem := (pair'.second.nodeData e' member').symm.trans nodeData
    rw [Option.some.injEq, NodeKey.mk.injEq, Option.some.injEq] at sameItem
    have sameEntry := pair'.second.hashed.data member'
    rw [sameItem.1, hashedB.data inB, Option.some.injEq, HashEntry.mk.injEq] at sameEntry
    exact ⟨sameEntry.1.symm, sameEntry.2.symm⟩
  obtain ⟨e', member', sameKey, sameNode⟩ :=
    pair'.second.mem_of_findEntry (found e (List.mem_singleton_self e)).1
  obtain ⟨castSame, -⟩ := slotOf member' List.mem_cons_self (sameNode ▸ dataHere)
  refine ⟨?_, fun inB => ?_⟩
  · rw [← sameKey, castSame, castKey, List.length_take]
    exact Nat.lt_of_le_of_lt (Nat.min_le_left _ _) (Nat.mod_lt _ (by decide))
  · -- A node of the other container with the same key would have the same slot.
    obtain ⟨old, inB, oldKey⟩ := List.mem_map.mp inB
    have other : old.node ≠ e.node := fun same =>
      pair.nodes (List.mem_map_of_mem member) (same ▸ List.mem_map_of_mem inB)
    have inB' : old.node ∈ slotsB'.map Slot.node := by
      rw [pair'.second.listed.unique listedB]
      exact List.mem_append_left _ (List.mem_map_of_mem inB)
    obtain ⟨old', oldMember, sameOld⟩ := List.mem_map.mp inB'
    have oldData : m'.nodes.dataAt old'.node = some ⟨some old.item, old.key.length⟩ := by
      rw [sameOld, dataElsewhere _ other]
      exact pair.second.nodeData old inB
    obtain ⟨oldSame, -⟩ := slotOf oldMember (List.mem_cons_of_mem _ inB) oldData
    have same : old' = e' := List.inj_on_of_nodup_map pair'.second.keys oldMember member'
      (oldSame.trans (oldKey.trans sameKey.symm))
    exact other (sameOld.symm.trans (same ▸ sameNode))

/-- A full list takes no item. -/
theorem room_of_moveItem {item : ItemPtr} {node : NodePtr}
    {result : Container × Container × Memory}
    (moved : a.moveItemToOtherList item node b m = some result) : b.list.count + 1 ≤ maxCount := by
  obtain ⟨cell, -, moved⟩ := Option.bind_eq_some_iff.mp moved
  obtain ⟨key, -, moved⟩ := Option.bind_eq_some_iff.mp moved
  obtain ⟨entered, -, moved⟩ := Option.bind_eq_some_iff.mp moved
  obtain ⟨key, -, moved⟩ := Option.bind_eq_some_iff.mp moved
  obtain ⟨removed, -, moved⟩ := Option.bind_eq_some_iff.mp moved
  obtain ⟨lists, moved, -⟩ := Option.bind_eq_some_iff.mp moved
  obtain ⟨taken, -, moved⟩ := Option.bind_eq_some_iff.mp moved
  obtain ⟨added, moved, -⟩ := Option.bind_eq_some_iff.mp moved
  exact ListSpecial.room_of_addDataRaw moved

/-- The hash tables after `MoveContentToOtherList` of or into an empty container. -/
theorem moveHashes_eq (pair : Pair m a b slotsA slotsB) (supply : List ItemPtr)
    (oneEmpty : slotsA = [] ∨ slotsB = []) :
    ∃ hash otherHash, a.moveHashes supply b m = some (hash, otherHash, m) ∧
      Entered m.entries hash [] ∧ Entered m.entries otherHash (slotsB ++ slotsA) := by
  have counted := pair.second.listed.count
  cases slotsB with
  | nil => exact ⟨b.hash, a.hash, if_pos counted, pair.second.hashed, pair.first.hashed⟩
  | cons e rest =>
      obtain rfl : slotsA = [] := oneEmpty.resolve_right (List.cons_ne_nil e rest)
      rw [List.map_cons, List.length_cons] at counted
      refine ⟨a.hash, b.hash, ?_, pair.first.hashed, ?_⟩
      · have nonzero : b.list.count ≠ 0 := by omega
        have first : a.list.first = none := pair.first.listed.first
        rw [Container.moveHashes, if_neg nonzero, first]
        cases a.list.bound <;> rfl
      · rw [List.append_nil]
        exact pair.second.hashed

/-- `MoveContentToOtherList` of or into an empty container. -/
theorem moveContent_moved (pair : Pair m a b slotsA slotsB) (supply : List ItemPtr)
    (oneEmpty : slotsA = [] ∨ slotsB = []) :
    ∃ after, a.moveContentToOtherList supply b m = some after ∧
      Moved slotsA slotsB slotsA after := by
  obtain ⟨hash, otherHash, entries, hashedA, hashedB⟩ := pair.moveHashes_eq supply oneEmpty
  have countA := pair.first.listed.count
  have countB := pair.second.listed.count
  have room : b.list.count + a.list.count ≤ maxCount := by
    rcases oneEmpty with rfl | rfl
    · rw [countA, List.map_nil, List.length_nil, Int.natCast_zero, Int.add_zero]
      exact pair.second.counted
    · rw [countB, List.map_nil, List.length_nil, Int.natCast_zero, Int.zero_add]
      exact pair.first.counted
  obtain ⟨otherList, nodes, moved, listed, relinks⟩ :=
    pair.first.listed.moveContentToOtherList pair.second.listed (List.disjoint_symm pair.nodes) room
  rw [← List.map_append] at listed
  have second : Container.Holds ⟨nodes, m.entries⟩ ⟨otherHash, otherList⟩ (slotsB ++ slotsA) := by
    refine ⟨?_, listed, ?_, hashedB, fun e member => ?_⟩
    · rcases oneEmpty with rfl | rfl
      · rw [List.append_nil]
        exact pair.second.keys
      · exact pair.first.keys
    · rw [listed.count, List.length_map, List.length_append, Int.natCast_add]
      rwa [countA, countB, List.length_map, List.length_map] at room
    · rw [relinks.data]
      rcases List.mem_append.mp member with inB | inA
      · exact pair.second.nodeData e inB
      · exact pair.first.nodeData e inA
  have first : Container.Holds ⟨nodes, m.entries⟩ ⟨hash, {}⟩ [] :=
    ⟨List.nodup_nil, .empty _, (by decide : (0 : Int) ≤ maxCount), hashedA,
      fun _ member => absurd member List.not_mem_nil⟩
  refine ⟨(⟨hash, {}⟩, ⟨otherHash, otherList⟩, ⟨nodes, m.entries⟩), ?_, [], slotsB ++ slotsA,
    ⟨first, second, List.disjoint_nil_left _, List.disjoint_nil_left _, ?_⟩, ?_, fun e member => ?_⟩
  · simp only [Container.moveContentToOtherList, entries, moved, Option.bind_eq_bind,
      Option.bind_some, Option.pure_def]
  · rw [List.length_nil, Nat.zero_add, List.length_append, Nat.add_comm]
    exact pair.live
  · rw [List.nil_append]
    exact List.perm_append_comm.map Slot.node
  · exact ⟨second.findEntry_of_mem (List.mem_append_right _ member),
      first.findEntry_of_notMem List.not_mem_nil⟩

/-- If neither container is empty, the key of the first node is read after its entry was
deleted. -/
theorem moveContent_undefined (pair : Pair m a b slotsA slotsB) (supply : List ItemPtr)
    (nonemptyA : slotsA ≠ []) (nonemptyB : slotsB ≠ []) :
    a.moveContentToOtherList supply b m = none := by
  obtain ⟨e, rest, rfl⟩ := List.exists_cons_of_ne_nil nonemptyA
  have member : e ∈ e :: rest := List.mem_cons_self
  have nonzero : b.list.count ≠ 0 := by
    have positive := List.length_pos_iff.mpr nonemptyB
    rw [pair.second.listed.count, List.length_map]
    omega
  obtain ⟨cell, read, carried⟩ := Option.map_eq_some_iff.mp (pair.first.nodeData e member)
  have hashed : Entered m.entries a.hash ([] ++ e :: rest) := pair.first.hashed
  obtain ⟨hash, items, removed, -, deleted, -⟩ := hashed.removeEntry pair.first.keys
  have wholeKey : m.keyBytes (some e.item) e.key.length = some e.key := by
    rw [keyBytes_eq (pair.first.hashed.data member) (Nat.le_refl _), List.take_length]
  have gone : Memory.keyBytes { m with entries := items } (some e.item)
      (castLength e.key.length) = none := keyBytes_deleted deleted _
  have first : a.list.first = some e.node := pair.first.listed.first
  simp only [Container.moveContentToOtherList, Container.moveHashes, if_neg nonzero, first,
    ListSpecial.bound, Container.moveEntries, read, carried, wholeKey, removed, gone,
    Option.bind_eq_bind, Option.bind_some, Option.bind_none]

end Pair

/-- Moving between two containers that satisfy the invariant keeps both and every node exactly in
these cases: the whole content if one of the containers is empty, one node if the other container
has room, does not have its key, and the length of the key survives its cast. -/
theorem moves_keep_containers {m : Memory} {a b : Container} {slotsA slotsB : List Slot}
    (pair : Pair m a b slotsA slotsB) {item : ItemPtr} (free : m.entries.items item = none) :
    (∀ supply, (∃ after, a.moveContentToOtherList supply b m = some after ∧
        Moved slotsA slotsB slotsA after) ↔ slotsA = [] ∨ slotsB = []) ∧
      ∀ e ∈ slotsA, (∃ after, a.moveItemToOtherList item e.node b m = some after ∧
        Moved slotsA slotsB [e] after) ↔
          e.key.length < 2 ^ 32 ∧ e.key ∉ slotsB.map Slot.key ∧ b.list.count < maxCount := by
  refine ⟨fun supply => ⟨?_, pair.moveContent_moved supply⟩, fun e member => ⟨?_, ?_⟩⟩
  · rintro ⟨after, moved, -⟩
    by_contra both
    rw [not_or] at both
    cases moved.symm.trans (pair.moveContent_undefined supply both.1 both.2)
  · rintro ⟨after, moved, kept⟩
    have room := Pair.room_of_moveItem moved
    obtain ⟨short, absent⟩ := pair.moveItem_of_moved member free room moved kept
    exact ⟨short, absent, room⟩
  · rintro ⟨short, absent, room⟩
    exact pair.moveItem_moved member free room short absent

/-- Memory with two nodes that are in no container. -/
def twoNodes : Memory where
  nodes := (Heap.alloc (Heap.alloc (fun _ => none) 11 ⟨none, none, ⟨none, 0⟩⟩) 10
    ⟨none, none, ⟨none, 0⟩⟩)

/-- Each of the two nodes added to a container of its own. -/
theorem twoNodes_added {keyA keyB : Key} (shortA : keyA.length < 2 ^ 32)
    (shortB : keyB.length < 2 ^ 32) :
    ∃ hash a b m₁ m, HashTbl.new 0 = some hash ∧
      Container.addData 10 100 keyA { hash := hash } twoNodes = some (true, a, m₁) ∧
      Container.addData 11 101 keyB { hash := hash } m₁ = some (true, b, m) ∧
      Pair m a b [⟨keyA, 10, 100⟩] [⟨keyB, 11, 101⟩] ∧ m.entries.items 102 = none := by
  obtain ⟨hash, constructed⟩ : ∃ hash, HashTbl.new 0 = some hash := ⟨_, rfl⟩
  have empty (m : Memory) : Container.Holds m { hash := hash } [] := .empty constructed m
  have start : Pair twoNodes { hash := hash } { hash := hash } [] [] :=
    ⟨empty _, empty _, List.disjoint_nil_left _, List.disjoint_nil_left _, Nat.zero_le _⟩
  obtain ⟨a, m₁, addedA, pair₁, nodes₁, items₁⟩ := start.addData ⟨keyA, 10, 100⟩
    (Option.some_ne_none _) List.not_mem_nil List.not_mem_nil rfl shortA List.not_mem_nil
    (by decide : (1 : Int) ≤ maxCount)
  obtain ⟨b, m, addedB, pair, -, items⟩ := pair₁.symm.addData ⟨keyB, 11, 101⟩
    ((nodes₁ 11 (by decide : (11 : NodePtr) ≠ 10) List.not_mem_nil).trans_ne
      (Option.some_ne_none _)) List.not_mem_nil
    (by decide : (11 : NodePtr) ∉ [(10 : NodePtr)])
    (items₁ 101 (by decide : (101 : ItemPtr) ≠ 100) List.not_mem_nil) shortB List.not_mem_nil
    (by decide : (1 : Int) ≤ maxCount)
  refine ⟨hash, a, b, m₁, m, constructed, addedA, addedB, pair.symm, ?_⟩
  exact (items 102 (by decide : (102 : ItemPtr) ≠ 101) List.not_mem_nil).trans
    (items₁ 102 (by decide : (102 : ItemPtr) ≠ 100) List.not_mem_nil)

/-- An item is moved between two containers with one key each: the other container has both
then, and this one is empty. -/
theorem moves_keep_containers_twoKeys :
    ∃ m a b, Pair m a b [⟨[1], 10, 100⟩] [⟨[2], 11, 101⟩] ∧ m.entries.items 102 = none ∧
      ∃ after, a.moveItemToOtherList 102 10 b m = some after ∧
        Moved [⟨[1], 10, 100⟩] [⟨[2], 11, 101⟩] [⟨[1], 10, 100⟩] after := by
  have short (byte : UInt8) : [byte].length < 2 ^ 32 := by rw [List.length_singleton]; decide
  obtain ⟨-, a, b, -, m, -, -, -, pair, free⟩ := twoNodes_added (short 1) (short 2)
  have room : b.list.count < maxCount := by
    rw [pair.second.listed.count]
    exact (by decide : (1 : Int) < maxCount)
  refine ⟨m, a, b, pair, free, ?_⟩
  exact ((moves_keep_containers pair free).2 ⟨[1], 10, 100⟩ (List.mem_singleton_self _)).mpr
    ⟨short 1, (by decide : ([1] : Key) ∉ [([2] : Key)]), room⟩

/-- With one node in each container the content cannot be moved, even if the keys differ; and if
the keys are the same, the other container has the key twice after the node was moved. -/
theorem moves_of_twoNodes :
    (∃ hash a b m₁ m, HashTbl.new 0 = some hash ∧
      Container.addData 10 100 [1] { hash := hash } twoNodes = some (true, a, m₁) ∧
      Container.addData 11 101 [2] { hash := hash } m₁ = some (true, b, m) ∧
      Pair m a b [⟨[1], 10, 100⟩] [⟨[2], 11, 101⟩] ∧ m.entries.items 102 = none ∧
      a.moveContentToOtherList [102] b m = none) ∧
    ∃ hash a b m₁ m, HashTbl.new 0 = some hash ∧
      Container.addData 10 100 [1] { hash := hash } twoNodes = some (true, a, m₁) ∧
      Container.addData 11 101 [1] { hash := hash } m₁ = some (true, b, m) ∧
      Pair m a b [⟨[1], 10, 100⟩] [⟨[1], 11, 101⟩] ∧ m.entries.items 102 = none ∧
      ∃ after, a.moveItemToOtherList 102 10 b m = some after ∧
        Entered after.2.2.entries after.2.1.hash [⟨[1], 10, 102⟩, ⟨[1], 11, 101⟩] ∧
        ¬ Moved [⟨[1], 10, 100⟩] [⟨[1], 11, 101⟩] [⟨[1], 10, 100⟩] after := by
  have short (byte : UInt8) : [byte].length < 2 ^ 32 := by rw [List.length_singleton]; decide
  constructor
  · obtain ⟨hash, a, b, m₁, m, constructed, addedA, addedB, pair, free⟩ :=
      twoNodes_added (short 1) (short 2)
    exact ⟨hash, a, b, m₁, m, constructed, addedA, addedB, pair, free,
      pair.moveContent_undefined [102] (List.cons_ne_nil _ _) (List.cons_ne_nil _ _)⟩
  · obtain ⟨hash, a, b, m₁, m, constructed, addedA, addedB, pair, free⟩ :=
      twoNodes_added (short 1) (short 1)
    have room : b.list.count + 1 ≤ maxCount := by
      rw [pair.second.listed.count]
      exact (by decide : (2 : Int) ≤ maxCount)
    have split : Pair m a b ([] ++ ⟨[1], 10, 100⟩ :: []) [⟨[1], 11, 101⟩] := pair
    obtain ⟨a', b', m', moved, -, hashed, -⟩ := split.moveItem_eq free room
    refine ⟨hash, a, b, m₁, m, constructed, addedA, addedB, pair, free, (a', b', m'), moved, hashed,
      fun kept => ?_⟩
    exact (pair.moveItem_of_moved (List.mem_singleton_self _) free room moved kept).2
      (List.mem_singleton_self _)

end Common

end CppRaft
