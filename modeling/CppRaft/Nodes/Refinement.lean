import CppRaft.Common.HashTbl
import CppRaft.Common.ListSpecial
import CppRaft.Store.OrderedMap

/-!
# The node table is an ordered map

Every state that calls with keys shorter than `2 ^ 32` bytes lead to represents a
list of slots, one for each present node. The list holds the nodes in the order
of the slots, the chain of an index holds the items with that index newest first,
and nodes and items point at each other. The calls act on the slots as on an
ordered map from keys to nodes.

The calls on the two structures inside the table are those of `ListSpecial` and of
`HashTbl` with the default number of chains.
-/

namespace CppRaft

open Machine Store

/-- A present node with its key and its hash item. -/
structure Slot where
  key : Key
  node : NodePtr
  item : ItemPtr

/-- The entry of the map. -/
def Slot.entry (e : Slot) : Key × NodePtr :=
  (e.key, e.node)

/-- The items of a chain, from its head. -/
def chain (index : ℕ) (slots : List Slot) : List ItemPtr :=
  ((slots.filter fun e => decide (unHash e.key = index)).map Slot.item).reverse

/-- The hash item of a slot and what it carries. -/
def Slot.itemCell (e : Slot) : ItemPtr × HashItem :=
  (e.item, ⟨e.key, e.node⟩)

/-- The items of the slots, the newest first. -/
def itemCells (slots : List Slot) : List (ItemPtr × HashItem) :=
  slots.reverse.map Slot.itemCell

/-- Every slot has its item. -/
theorem mem_itemCells {slots : List Slot} {e : Slot} (member : e ∈ slots) :
    e.itemCell ∈ itemCells slots :=
  List.mem_map_of_mem (List.mem_reverse.mpr member)

/-- The items, the latest first: `AddEntry2` puts an item at the head of its chain. -/
theorem map_fst_itemCells (slots : List Slot) :
    (itemCells slots).map Prod.fst = (slots.map Slot.item).reverse := by
  rw [itemCells, List.map_map, List.map_reverse]
  rfl

/-- A new slot has the first item. -/
theorem itemCells_concat (slots : List Slot) (e : Slot) :
    itemCells (slots ++ [e]) = e.itemCell :: itemCells slots := by
  rw [itemCells, List.reverse_append]
  rfl

/-- The items of two lists of slots. -/
theorem itemCells_append (before after : List Slot) :
    itemCells (before ++ after) = itemCells after ++ itemCells before := by
  rw [itemCells, List.reverse_append, List.map_append]
  rfl

/-- The item of a slot among the others. -/
theorem itemCells_middle (before after : List Slot) (e : Slot) :
    itemCells (before ++ e :: after) = itemCells after ++ e.itemCell :: itemCells before := by
  rw [List.append_cons, itemCells_append, itemCells_concat]

/-- The chains of the table, as the library of chained heaps describes them. -/
theorem chain_eq_chainOf (index : ℕ) (slots : List Slot) :
    chain index slots = Heap.chainOf (fun item => unHash item.key) index (itemCells slots) := by
  rw [chain, Heap.chainOf, itemCells, List.filter_map, List.map_map, List.filter_reverse,
    List.map_reverse]
  rfl

/-- A key shorter than the cast allows is not cut. -/
theorem castLength_of_lt {length : ℕ} (short : length < 2 ^ 32) : castLength length = length :=
  Nat.mod_eq_of_lt short

/-- A short key is not cut. -/
theorem castKey_of_lt {key : Key} (short : key.length < 2 ^ 32) : castKey key = key := by
  rw [castKey, castLength_of_lt short, List.take_length]

namespace ListspecialAndHashtbl

/-- The table holds exactly these slots. -/
structure Represents (t : ListspecialAndHashtbl) (slots : List Slot) : Prop where
  keys : (slots.map Slot.key).Nodup
  nodes : (slots.map Slot.node).Nodup
  items : (slots.map Slot.item).Nodup
  short : ∀ e ∈ slots, e.key.length < 2 ^ 32
  listed : t.nodes.Linked none (slots.map Slot.node) none
  first : t.first = (slots.map Slot.node).head?
  last : t.last = (slots.map Slot.node).getLast?
  count : t.count = slots.length
  chained : ∀ index, t.items.Linked none (chain index slots) none
  heads : ∀ index, t.table index = (chain index slots).head?
  nodeData : ∀ e ∈ slots, t.nodes.dataAt e.node = some ⟨some e.item, e.key.length⟩
  itemData : ∀ e ∈ slots, t.items.dataAt e.item = some ⟨e.key, e.node⟩
  allocated : ∀ node, t.nodes node ≠ none → node ∈ slots.map Slot.node

/-- The constructed table. -/
theorem represents_nil : Represents {} [] := by
  constructor <;> simp [chain, Heap.Linked]

/-- The slot of a key. -/
def slotOf? (key : Key) (slots : List Slot) : Option Slot :=
  slots.find? fun e => decide (e.key = key)

/-- A slot that is found is there and has the key. -/
theorem slotOf?_eq_some {key : Key} {slots : List Slot} {e : Slot}
    (found : slotOf? key slots = some e) : e ∈ slots ∧ e.key = key :=
  ⟨List.mem_of_find?_eq_some found, by simpa using List.find?_some found⟩

/-- Keys are distinct, so a slot is found by its key. -/
theorem slotOf?_of_mem {slots : List Slot} (distinct : (slots.map Slot.key).Nodup) {e : Slot}
    (member : e ∈ slots) : slotOf? e.key slots = some e := by
  cases found : slotOf? e.key slots with
  | none =>
      have absent := List.find?_eq_none.mp found e member
      simp at absent
  | some other =>
      obtain ⟨otherMember, same⟩ := slotOf?_eq_some found
      rw [List.inj_on_of_nodup_map distinct otherMember member same]

/-- Keys are distinct, so the direction of the search does not matter. -/
theorem slotOf?_reverse {slots : List Slot} (distinct : (slots.map Slot.key).Nodup) (key : Key) :
    slotOf? key slots.reverse = slotOf? key slots := by
  cases found : slotOf? key slots with
  | none =>
      refine List.find?_eq_none.mpr fun e member => ?_
      exact List.find?_eq_none.mp found e (List.mem_reverse.mp member)
  | some e =>
      obtain ⟨member, rfl⟩ := slotOf?_eq_some found
      refine slotOf?_of_mem ?_ (List.mem_reverse.mpr member)
      rw [List.map_reverse]
      exact List.nodup_reverse.mpr distinct

/-- The member `m_list`. -/
def list (t : ListspecialAndHashtbl) : Common.ListSpecial NodePtr :=
  ⟨t.first, t.last, t.count⟩

/-- The table after a call on its list. -/
def withList (t : ListspecialAndHashtbl) (l : Common.ListSpecial NodePtr)
    (nodes : Heap NodePtr NodeKey) : ListspecialAndHashtbl :=
  { t with nodes := nodes, first := l.first, last := l.last, count := l.count }

/-- `AddDataRaw` is the one of the list. -/
theorem addDataRaw_eq_list (t : ListspecialAndHashtbl) (node : NodePtr) :
    t.addDataRaw node =
      (t.list.addDataRaw node t.nodes).map fun (l, nodes) => t.withList l nodes := by
  simp only [addDataRaw, Common.ListSpecial.addDataRaw, list]
  cases t.nodes.write node fun cell => { cell with prev := t.last, next := none } with
  | none => rfl
  | some nodes =>
      by_cases room : t.count < maxCount
      · have raised : Common.raise t.count 1 = some (t.count + 1) := if_pos room
        simp only [if_pos room, raised, Option.bind_eq_bind, Option.bind_some]
        cases t.first with
        | none => rfl
        | some p => cases nodes.assignNext t.last (some node) <;> rfl
      · have stuck : Common.raise t.count 1 = none := if_neg room
        simp only [if_neg room, stuck, Option.bind_eq_bind, Option.bind_some, Option.bind_none,
          Option.map_none]

/-- `RemoveDataRaw` is the one of the list. -/
theorem removeDataRaw_eq_list (t : ListspecialAndHashtbl) (node : NodePtr) :
    t.removeDataRaw node =
      (t.list.removeDataRaw node t.nodes).map fun (next, l, nodes) =>
        (next, t.withList l nodes) := by
  simp only [removeDataRaw, Common.ListSpecial.removeDataRaw, list]
  cases t.nodes.unlink node with
  | none => rfl
  | some nodes =>
      simp only [Option.bind_eq_bind, Option.bind_some]
      cases nodes node <;> rfl

/-- The member `m_hash`, which has the default number of chains. -/
def hash (t : ListspecialAndHashtbl) : Common.HashTbl where
  table := t.table
  tableSize := 64
  tableSizeMin1 := tableSizeMin1
  sized := rfl
  small := by decide

/-- The memory of the items, with the bound for the loops over the chains. -/
def itemMemory (t : ListspecialAndHashtbl) : Common.ItemMemory NodePtr :=
  ⟨t.items, t.bound⟩

/-- The table after a call on its hash table. -/
def withHash (t : ListspecialAndHashtbl) (h : Common.HashTbl) (m : Common.ItemMemory NodePtr) :
    ListspecialAndHashtbl :=
  { t with items := m.items, table := h.table }

/-- The hash table of the constructed table is the one that `HashTbl` constructs by default. -/
theorem new_zero_eq_hash : Common.HashTbl.new 0 = some (hash {}) :=
  rfl

/-- The bucket of a key is the same in both models of the hash table. -/
theorem unHash32_hash (t : ListspecialAndHashtbl) (key : Key) :
    t.hash.unHash32 key = unHash key :=
  t.hash.unHash32_eq key

/-- The chain of a key is the one of the hash table. -/
theorem head?_hash (t : ListspecialAndHashtbl) (key : Key) :
    t.hash.head? (unHash key) = some (t.table (unHash key)) :=
  t.hash.head?_unHash key

/-- The chain of a key in every hash table of the default size. -/
theorem unHash_of_tableSize {h : Common.HashTbl} (size : h.tableSize = 64) (key : Key) :
    h.unHash key = unHash key := by
  have mask : h.tableSizeMin1 = tableSizeMin1 := by
    apply UInt64.toNat_inj.mp
    exact Nat.succ.inj (h.sized.trans size)
  rw [Common.HashTbl.unHash, mask]
  rfl

/-- A hash table with 64 buckets holds its items in the chains that the fixed mask gives. -/
theorem chained_of_tableSize {h : Common.HashTbl} {m : Common.ItemMemory NodePtr}
    {cells : List (ItemPtr × HashItem)} (size : h.tableSize = 64)
    (holds : Common.HashTbl.Holds m h cells) :
    m.items.Chained h.table (fun item => unHash item.key) cells := by
  simpa only [unHash_of_tableSize size] using holds.chained

/-- The search of a chain is the one of the hash table. -/
theorem findItem_eq_hash (t : ListspecialAndHashtbl) (key : Key) :
    t.findItem key = t.hash.findItem key t.itemMemory := by
  rw [Common.HashTbl.findItem, unHash32_hash, head?_hash]
  rfl

/-- `FindEntry` is the one of the hash table. -/
theorem findEntry_eq_hash (t : ListspecialAndHashtbl) (key : Key) :
    t.findEntry key = t.hash.findEntry key t.itemMemory := by
  rw [findEntry, findItem_eq_hash]
  rfl

/-- `AddEntry2` is the one of the hash table. -/
theorem addEntry2_eq_hash (t : ListspecialAndHashtbl) (item : ItemPtr) (key : Key)
    (node : NodePtr) :
    t.addEntry2 item key node =
      (t.hash.addEntry2 item key node t.itemMemory).map fun (_, h, m) => t.withHash h m := by
  simp only [addEntry2, Common.HashTbl.addEntry2, Common.HashTbl.addItem, unHash32_hash,
    head?_hash, itemMemory, Option.bind_eq_bind, Option.bind_some, Heap.setNext_alloc]
  cases Heap.setPrev _ (t.table (unHash key)) (some item) <;> rfl

/-- `RemoveEntry2` is the one of the hash table, on the items of the node table. -/
theorem removeEntry2_eq_hash (t : ListspecialAndHashtbl) (key : Key) :
    t.removeEntry2 key =
      (t.hash.removeEntry2 key t.itemMemory).map fun (removed, h, m) =>
        (removed.isSome, t.withHash h m) := by
  simp only [removeEntry2, Common.HashTbl.removeEntry2, findItem_eq_hash, unHash32_hash,
    head?_hash, Option.bind_eq_bind, Option.bind_some]
  rcases t.hash.findItem key t.itemMemory with _ | _ | item
  · rfl
  · rfl
  · simp only [itemMemory, Option.bind_some]
    cases t.items item with
    | none => rfl
    | some cell =>
        simp only [Option.bind_some]
        cases t.items.unlink item with
        | none => rfl
        | some items =>
            simp only [Option.bind_some]
            cases items.unlink item <;> rfl

/-- The table by its two structures: the list holds the nodes, the hash table their items,
and each node points to its own. -/
theorem represents_of {t : ListspecialAndHashtbl} {slots : List Slot}
    (keys : (slots.map Slot.key).Nodup) (short : ∀ e ∈ slots, e.key.length < 2 ^ 32)
    (listed : t.list.Holds t.nodes (slots.map Slot.node))
    (hashed : t.items.Chained t.table (fun item => unHash item.key) (itemCells slots))
    (nodeData : ∀ e ∈ slots, t.nodes.dataAt e.node = some ⟨some e.item, e.key.length⟩)
    (allocated : ∀ node, t.nodes node ≠ none → node ∈ slots.map Slot.node) :
    Represents t slots where
  keys := keys
  nodes := listed.distinct
  items := by
    rw [← List.nodup_reverse, ← map_fst_itemCells]
    exact hashed.distinct
  short := short
  listed := listed.linked
  first := listed.first
  last := listed.last
  count := listed.count.trans (congrArg _ (List.length_map _))
  chained index := by
    rw [chain_eq_chainOf]
    exact hashed.linked index
  heads index := by
    rw [chain_eq_chainOf]
    exact hashed.heads index
  nodeData := nodeData
  itemData e member := hashed.data e.itemCell (mem_itemCells member)
  allocated := allocated

namespace Represents

variable {t : ListspecialAndHashtbl} {slots : List Slot}

/-- The bound on the loops is larger than the number of slots. -/
theorem length_lt_bound (rep : Represents t slots) : slots.length < t.bound := by
  rw [bound, rep.count, Int.toNat_natCast]
  exact Nat.lt_succ_self _

/-- The list of the table holds the nodes of its slots. -/
theorem list_holds (rep : Represents t slots) :
    Common.ListSpecial.Holds t.nodes t.list (slots.map Slot.node) :=
  ⟨rep.nodes, rep.listed, rep.first, rep.last,
    rep.count.trans (congrArg _ (List.length_map _).symm)⟩

/-- The hash table holds the items of the slots. -/
theorem hash_holds (rep : Represents t slots) :
    Common.HashTbl.Holds t.itemMemory t.hash (itemCells slots) where
  chained :=
    { distinct := by
        rw [map_fst_itemCells]
        exact List.nodup_reverse.mpr rep.items
      data := fun cell member => by
        obtain ⟨e, listed, rfl⟩ := List.mem_map.mp member
        exact rep.itemData e (List.mem_reverse.mp listed)
      linked := fun index => (chain_eq_chainOf index slots).symm ▸ rep.chained index
      heads := fun index => (rep.heads index).trans (by rw [chain_eq_chainOf]; rfl) }
  live := by
    rw [itemCells, List.length_map, List.length_reverse]
    exact Nat.le_of_lt rep.length_lt_bound

/-- A lookup finds the node of the key. -/
theorem findEntry_eq (rep : Represents t slots) (key : Key) :
    t.findEntry key = some ((slotOf? key slots).map Slot.node) := by
  rw [findEntry_eq_hash, rep.hash_holds.findEntry_eq, Common.HashTbl.entryOf?, itemCells,
    List.find?_map, ← slotOf?_reverse rep.keys, Option.map_map]
  rfl

/-- A node that is free belongs to no slot. -/
theorem node_notMem (rep : Represents t slots) {node : NodePtr} (released : t.nodes node = none) :
    node ∉ slots.map Slot.node := by
  intro member
  obtain ⟨e, listed, rfl⟩ := List.mem_map.mp member
  cases (rep.nodeData e listed).symm.trans (Heap.dataAt_eq_none_iff.mpr released)

/-- A table with one slot more, behind the others: the list has it at the end, and the chain
of its bucket at the head. -/
theorem of_added {t' : ListspecialAndHashtbl} {e : Slot} (rep : Represents t slots)
    (newKey : e.key ∉ slots.map Slot.key) (newNode : e.node ∉ slots.map Slot.node)
    (short : e.key.length < 2 ^ 32)
    (listed : t'.list.Holds t'.nodes (slots.map Slot.node ++ [e.node]))
    (hashed : t'.items.Chained t'.table (fun item => unHash item.key) (itemCells (slots ++ [e])))
    (here : t'.nodes.dataAt e.node = some ⟨some e.item, e.key.length⟩)
    (nodeData : ∀ p, p ≠ e.node → t'.nodes.dataAt p = t.nodes.dataAt p) :
    Represents t' (slots ++ [e]) := by
  have every {P : Slot → Prop} (old : ∀ e' ∈ slots, P e') (new : P e) : ∀ e' ∈ slots ++ [e], P e' :=
    fun e' member => (List.mem_append.mp member).elim (old e')
      fun last => List.mem_singleton.mp last ▸ new
  have nodes : (slots ++ [e]).map Slot.node = slots.map Slot.node ++ [e.node] := List.map_append
  refine represents_of ?_ (every rep.short short) (nodes ▸ listed) hashed
    (every (fun e' member => ?_) here) fun node allocated => ?_
  · rw [List.map_append, List.map_singleton, List.nodup_append_comm]
    exact List.nodup_cons.mpr ⟨newKey, rep.keys⟩
  · have other : e'.node ≠ e.node := fun same => newNode (same ▸ List.mem_map_of_mem member)
    exact (nodeData _ other).trans (rep.nodeData e' member)
  · rw [nodes, List.mem_append, List.mem_singleton]
    by_cases same : node = e.node
    · exact Or.inr same
    · refine Or.inl (rep.allocated node fun released => allocated ?_)
      rw [← Heap.dataAt_eq_none_iff, nodeData node same]
      exact Heap.dataAt_eq_none_iff.mpr released

/-- A table with one slot less, gone from the list and from its chain. -/
theorem of_removed {t' : ListspecialAndHashtbl} {before after : List Slot} {e : Slot}
    (rep : Represents t (before ++ e :: after))
    (listed : t'.list.Holds t'.nodes ((before ++ after).map Slot.node))
    (hashed : t'.items.Chained t'.table (fun item => unHash item.key) (itemCells (before ++ after)))
    (released : t'.nodes e.node = none)
    (nodeData : ∀ p, p ≠ e.node → t'.nodes.dataAt p = t.nodes.dataAt p) :
    Represents t' (before ++ after) := by
  have fewer := sublist_middle before after e
  have gone : e.node ∉ (before ++ after).map Slot.node := notMem_map_middle rep.nodes
  refine represents_of (rep.keys.sublist (fewer.map _))
    (fun e' member => rep.short e' (fewer.subset member)) listed hashed (fun e' member => ?_)
    fun node allocated => ?_
  · have other : e'.node ≠ e.node := fun same => gone (same ▸ List.mem_map_of_mem member)
    exact (nodeData _ other).trans (rep.nodeData e' (fewer.subset member))
  · have other : node ≠ e.node := by
      rintro rfl
      exact allocated released
    have member := rep.allocated node fun free => allocated (by
      rw [← Heap.dataAt_eq_none_iff, nodeData node other]
      exact Heap.dataAt_eq_none_iff.mpr free)
    rw [List.map_append, List.map_cons, List.mem_append, List.mem_cons] at member
    rw [List.map_append, List.mem_append]
    exact member.imp_right fun later => later.resolve_left other

/-- `AddEntry2` makes a new item the head of its chain. -/
theorem addEntry2 (rep : Represents t slots) {u : ListspecialAndHashtbl}
    (items : u.items = t.items) (table : u.table = t.table) (counted : slots.length ≤ u.bound)
    (e : Slot) (free : t.items e.item = none) :
    ∃ items table, u.addEntry2 e.item e.key e.node =
        some { u with items := items, table := table } ∧
      items.Chained table (fun item => unHash item.key) (itemCells (slots ++ [e])) := by
  have holds : Common.HashTbl.Holds u.itemMemory u.hash (itemCells slots) := by
    refine ⟨?_, ?_⟩
    · rw [itemMemory, items, hash, table]
      exact rep.hash_holds.chained
    · rwa [itemCells, List.length_map, List.length_reverse]
  obtain ⟨h, m, added, holds', size, -, -⟩ :=
    holds.addItem (show u.items e.item = none from items ▸ free) e.key e.node
  refine ⟨m.items, h.table, ?_, ?_⟩
  · rw [addEntry2_eq_hash, Common.HashTbl.addEntry2, u.hash.unHash32_eq, added]
    rfl
  · rw [itemCells_concat]
    exact chained_of_tableSize size holds'

/-- `RemoveEntry2` takes the item of a slot out of its chain and releases it. -/
theorem removeEntry2 {before after : List Slot} {e : Slot}
    (rep : Represents t (before ++ e :: after)) :
    ∃ items table, t.removeEntry2 e.key =
        some (true, { t with items := items, table := table }) ∧
      items.Chained table (fun item => unHash item.key) (itemCells (before ++ after)) := by
  have holds := rep.hash_holds
  rw [itemCells_middle] at holds
  have first : ∀ cell ∈ itemCells after, cell.2.key ≠ e.key := by
    intro cell member same
    obtain ⟨e', later, rfl⟩ := List.mem_map.mp member
    exact notMem_map_middle rep.keys (List.mem_map.mpr
      ⟨e', List.mem_append_right _ (List.mem_reverse.mp later), same⟩)
  obtain ⟨h, m, removed, holds', size, -⟩ := holds.removeEntry2 first
  refine ⟨m.items, h.table, ?_, ?_⟩
  · rw [removeEntry2_eq_hash]
    exact congrArg (Option.map _) removed
  · rw [itemCells_append]
    exact chained_of_tableSize size holds'

/-- The key that a node points to. -/
theorem keyBytes_eq (rep : Represents t slots) {e : Slot} (member : e ∈ slots) :
    t.keyBytes (some e.item) e.key.length = some e.key := by
  obtain ⟨cell, read, carried⟩ := Option.map_eq_some_iff.mp (rep.itemData e member)
  simp only [keyBytes, read, carried, Option.bind_eq_bind, Option.bind_some, Nat.le_refl,
    ↓reduceIte, List.take_length, Option.pure_def]

/-- Removing the node of a slot and releasing it. -/
theorem removeData {before after : List Slot} {e : Slot}
    (rep : Represents t (before ++ e :: after)) :
    ∃ t₁ t₂, t.removeData e.node = some ((after.map Slot.node).head?, t₁) ∧
      t₁.deleteNode e.node = some t₂ ∧ Represents t₂ (before ++ after) := by
  have member : e ∈ before ++ e :: after := List.mem_append_right _ List.mem_cons_self
  obtain ⟨items, table, removed, hashed⟩ := rep.removeEntry2
  obtain ⟨cell, read, carried⟩ := Option.map_eq_some_iff.mp (rep.nodeData e member)
  have listed := rep.list_holds
  rw [List.map_append, List.map_cons] at listed
  obtain ⟨l, nodes, taken, listed', relinks⟩ := listed.removeDataRaw
  obtain ⟨cell', read', -⟩ := Option.map_eq_some_iff.mp
    ((relinks.data e.node).trans (rep.nodeData e member))
  rw [← List.map_append] at listed'
  let t₁ := withList { t with items := items, table := table } l nodes
  have raw : ({ t with items := items, table := table } : ListspecialAndHashtbl).removeDataRaw
      e.node = some ((after.map Slot.node).head?, t₁) := by
    rw [removeDataRaw_eq_list]
    exact congrArg (Option.map _) taken
  refine ⟨t₁, { t₁ with nodes := nodes.free e.node }, ?_, ?_, ?_⟩
  · simp only [ListspecialAndHashtbl.removeData, read, carried, Option.bind_eq_bind,
      Option.bind_some, castLength_of_lt (rep.short e member), rep.keyBytes_eq member, removed,
      ↓reduceIte, raw]
  · simp only [deleteNode, withList, read', Option.bind_eq_bind, Option.bind_some, Option.pure_def,
      t₁]
  · have kept : Common.ListSpecial.Holds (nodes.free e.node) l ((before ++ after).map Slot.node) :=
      { listed' with linked := listed'.linked.update (notMem_map_middle rep.nodes) _ }
    exact rep.of_removed kept hashed (Function.update_self ..)
      fun p other => (Heap.dataAt_update_of_ne other none).trans (relinks.data p)

/-- Adding a key that is there changes nothing. -/
theorem addNode_present (rep : Represents t slots) {e : Slot} (member : e ∈ slots)
    (node : NodePtr) (item : ItemPtr) : t.addNode e.key node item = some (none, t) := by
  rw [addNode, rep.findEntry_eq, slotOf?_of_mem rep.keys member]
  rfl

/-- Adding a key that is not there appends a slot, if the memory for the node and the item
is free and the counter stays an `int`. -/
theorem addNode_absent (rep : Represents t slots) (e : Slot) (short : e.key.length < 2 ^ 32)
    (absent : slotOf? e.key slots = none) (freeNode : t.nodes e.node = none)
    (freeItem : t.items e.item = none) (room : t.count < maxCount) :
    ∃ t', t.addNode e.key e.node e.item = some (some e.node, t') ∧
      Represents t' (slots ++ [e]) := by
  have newNode := rep.node_notMem freeNode
  have newKey : e.key ∉ slots.map Slot.key := by
    intro member
    obtain ⟨e', listed, same⟩ := List.mem_map.mp member
    exact List.find?_eq_none.mp absent e' listed (decide_eq_true same)
  let t₀ : ListspecialAndHashtbl := { t with nodes := t.nodes.alloc e.node ⟨none, none, {}⟩ }
  have here : t₀.nodes e.node = some ⟨none, none, {}⟩ := Function.update_self ..
  have listed : Common.ListSpecial.Holds t₀.nodes t₀.list (slots.map Slot.node) :=
    { rep.list_holds with linked := rep.listed.update newNode _ }
  obtain ⟨l, nodes, added, listed', relinks⟩ :=
    listed.addDataRaw newNode (by rw [here]; exact Option.some_ne_none _) room
  have counted : slots.length ≤ (t₀.withList l nodes).bound := by
    show slots.length ≤ l.count.toNat + 1
    rw [listed'.count, Int.toNat_natCast, List.length_append, List.length_map]
    omega
  obtain ⟨items, table, entered, hashed⟩ :=
    rep.addEntry2 (u := t₀.withList l nodes) rfl rfl counted e freeItem
  obtain ⟨cell, read, -⟩ := Option.map_eq_some_iff.mp
    ((relinks.data e.node).trans (congrArg (Option.map Cell.data) here))
  let written : Heap NodePtr NodeKey :=
    Function.update nodes e.node (some { cell with data := ⟨some e.item, e.key.length⟩ })
  let t' : ListspecialAndHashtbl := { t₀.withList l written with items := items, table := table }
  refine ⟨t', ?_, ?_⟩
  · have unfound : t.findEntry e.key = some none := by
      rw [rep.findEntry_eq, absent, Option.map_none]
    have unfound' : t₀.findEntry e.key = some none := unfound
    have raw : t₀.addDataRaw e.node = some (t₀.withList l nodes) := by
      rw [addDataRaw_eq_list, added]
      rfl
    have data : t₀.addData e.node e.item e.key = some (true, t') := by
      have nodes' : (t₀.withList l nodes).nodes = nodes := rfl
      simp only [addData, castKey_of_lt short, unfound', raw, entered, nodes', Heap.write, read,
        Option.bind_eq_bind, Option.bind_some, Option.pure_def]
      rfl
    rw [addNode, unfound]
    exact congrArg (Option.bind · _) data
  · have nodeElsewhere (p : NodePtr) (other : p ≠ e.node) :
        written.dataAt p = t.nodes.dataAt p := by
      rw [Heap.dataAt_update_of_ne other, relinks.data]
      exact Heap.dataAt_update_of_ne other _
    refine rep.of_added newKey newNode short
      (listed'.congr_links fun p _ => Heap.linksAt_update read _ p) hashed ?_ nodeElsewhere
    simp [t', withList, written, Heap.dataAt]

/-- Removing a key that is there takes out its slot. -/
theorem removeNode1_present {before after : List Slot} {e : Slot}
    (rep : Represents t (before ++ e :: after)) :
    ∃ t', t.removeNode1 e.key = some t' ∧ Represents t' (before ++ after) := by
  have member : e ∈ before ++ e :: after := List.mem_append_right _ List.mem_cons_self
  obtain ⟨t₁, t₂, removed, deleted, rep'⟩ := rep.removeData
  refine ⟨t₂, ?_, rep'⟩
  simp only [removeNode1, rep.findEntry_eq, slotOf?_of_mem rep.keys member, Option.map_some,
    Option.bind_eq_bind, Option.bind_some, removed, deleted]

/-- Removing a key that is not there changes nothing. -/
theorem removeNode1_absent (rep : Represents t slots) {key : Key}
    (absent : slotOf? key slots = none) : t.removeNode1 key = some t := by
  simp only [removeNode1, rep.findEntry_eq, absent, Option.map_none, Option.bind_eq_bind,
    Option.bind_some, Option.pure_def]

/-- Removing a node removes its key. -/
theorem removeNode2_eq (rep : Represents t slots) {e : Slot} (member : e ∈ slots) :
    t.removeNode2 e.node = t.removeNode1 e.key := by
  obtain ⟨cell, read, carried⟩ := Option.map_eq_some_iff.mp (rep.nodeData e member)
  simp only [removeNode2, read, carried, rep.keyBytes_eq member, Option.bind_eq_bind,
    Option.bind_some]

/-- The loop of `ClearAllNodes` removes one slot after the other, each time the first one. -/
theorem clearFrom_eq (rep : Represents t slots) (bound : ℕ) (enough : slots.length ≤ bound) :
    ∃ t', clearFrom bound (slots.map Slot.node).head? t = some t' ∧ Represents t' [] := by
  induction bound generalizing t slots with
  | zero =>
      obtain rfl := List.length_eq_zero_iff.mp (Nat.le_zero.mp enough)
      exact ⟨t, rfl, rep⟩
  | succ bound ih =>
      cases slots with
      | nil => exact ⟨t, rfl, rep⟩
      | cons e after =>
          have front : Represents t ([] ++ e :: after) := rep
          obtain ⟨t₁, t₂, removed, deleted, rep'⟩ := front.removeData
          obtain ⟨t', cleared, rep''⟩ := ih rep' (Nat.le_of_succ_le_succ enough)
          refine ⟨t', ?_, rep''⟩
          simp only [List.map_cons, List.head?_cons, clearFrom, removed, deleted,
            Option.bind_eq_bind, Option.bind_some]
          exact cleared

/-- `ClearAllNodes` leaves an empty table. -/
theorem clearAllNodes_eq (rep : Represents t slots) :
    ∃ t', t.clearAllNodes = some t' ∧ Represents t' [] := by
  rw [clearAllNodes, rep.first]
  exact rep.clearFrom_eq _ (Nat.le_of_lt rep.length_lt_bound)

/-- Following `next` visits the slots in order. -/
theorem forward_eq (rep : Represents t slots) : t.forward = some (slots.map Slot.node) := by
  rw [forward, rep.first]
  refine rep.listed.walk_next _ ?_
  rw [List.length_map]
  exact Nat.le_of_lt rep.length_lt_bound

/-- Following `prev` visits them in the reverse order. -/
theorem backward_eq (rep : Represents t slots) :
    t.backward = some (slots.map Slot.node).reverse := by
  rw [backward, rep.last]
  refine rep.listed.walk_prev _ ?_
  rw [List.length_map]
  exact Nat.le_of_lt rep.length_lt_bound

end Represents

end ListspecialAndHashtbl

end CppRaft
