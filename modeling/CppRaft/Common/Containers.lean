import CppRaft.Common.HashTbl
import CppRaft.Common.ListSpecial
import CppRaft.Nodes.Refinement

/-!
# Containers that share their memory

`ListspecialAndHashtbl` keeps a node in a list and in a hash table, and the node points to the copy
of its key in the hash item. Nodes go from one container to another, so the memory of the nodes and
that of the items belong to none of them. `Holds` is the invariant of one container, `Pair` that of
two containers with no node in common.
-/

namespace CppRaft

namespace Common

open Machine Store

/-- The memory of the nodes and of the hash items. -/
structure Memory where
  nodes : Heap NodePtr NodeKey := fun _ => none
  entries : ItemMemory NodePtr := {}

/-- The first `length` bytes behind a key pointer. The bytes of a deleted item are not there. -/
def Memory.keyBytes (m : Memory) (key : Option ItemPtr) (length : ℕ) : Option Key := do
  match key with
  | none => if length = 0 then pure [] else none
  | some item =>
      let cell ← m.entries.items item
      if length ≤ cell.data.key.length then pure (cell.data.key.take length) else none

/-- `node->key = hash.AddEntry2(key, ..., node)`, with the item that is allocated. -/
def enter (hash : HashTbl) (item : ItemPtr) (key : Key) (node : NodePtr) (m : Memory) :
    Option (HashTbl × Memory) :=
  if (m.entries.items item).isSome then none
  else do
    let (copy, hash, entries) ← hash.addEntry2 item key node m.entries
    let nodes ← m.nodes.write node fun cell => { cell with data := { cell.data with key := copy } }
    pure (hash, ⟨nodes, entries⟩)

/-- `ListspecialAndHashtbl`, without the memory. -/
structure Container where
  hash : HashTbl
  list : ListSpecial NodePtr := {}

namespace Container

/-- `FindEntry`. -/
def findEntry (c : Container) (key : Key) (m : Memory) : Option (Option NodePtr) :=
  c.hash.findEntry key m.entries

/-- `AddData`, which casts the length of the key. -/
def addData (node : NodePtr) (item : ItemPtr) (key : Key) (c : Container) (m : Memory) :
    Option (Bool × Container × Memory) := do
  match ← c.findEntry (castKey key) m with
  | some _ => pure (false, c, m)
  | none =>
      let (list, nodes) ← c.list.addDataRaw node m.nodes
      let (hash, m) ← enter c.hash item (castKey key) node { m with nodes := nodes }
      let nodes ← m.nodes.write node fun cell =>
        { cell with data := { cell.data with keyLength := key.length } }
      pure (true, ⟨hash, list⟩, { m with nodes := nodes })

/-- The container that a node table is. -/
def ofTable (t : ListspecialAndHashtbl) : Container :=
  ⟨t.hash, t.list⟩

end Container

/-- The memory that a node table lives in. -/
def Memory.ofTable (t : ListspecialAndHashtbl) : Memory :=
  ⟨t.nodes, t.itemMemory⟩

namespace Container

/-- `FindEntry` is the same in both models of the container. -/
theorem findEntry_ofTable (t : ListspecialAndHashtbl) (key : Key) :
    (ofTable t).findEntry key (.ofTable t) = t.findEntry key :=
  (t.findEntry_eq_hash key).symm

/-- `AddData` of a container is that of the node table. -/
theorem addData_ofTable {t : ListspecialAndHashtbl} (counted : 0 ≤ t.count) (node : NodePtr)
    {item : ItemPtr} (free : t.items item = none) (key : Key) :
    (ofTable t).addData node item key (.ofTable t) =
      (t.addData node item key).map fun (added, t) => (added, ofTable t, .ofTable t) := by
  simp only [addData, ListspecialAndHashtbl.addData, findEntry_ofTable, Option.bind_eq_bind]
  rcases t.findEntry (castKey key) with _ | _ | old
  · rfl
  · simp only [Option.bind_some, t.addDataRaw_eq_list, ofTable, Memory.ofTable]
    cases added : t.list.addDataRaw node t.nodes with
    | none => rfl
    | some after =>
        obtain ⟨l, nodes⟩ := after
        have count : l.count = t.count + 1 := ListSpecial.count_addDataRaw added
        have bound : (t.withList l nodes).bound = t.bound + 1 := by
          show l.count.toNat + 1 = t.count.toNat + 1 + 1
          rw [count]
          omega
        have table : (t.withList l nodes).table = t.table := rfl
        have items : (t.withList l nodes).items = t.items := rfl
        simp only [Option.bind_some, Option.map_some, enter, HashTbl.addEntry2, HashTbl.addItem,
          ListspecialAndHashtbl.addEntry2, ListspecialAndHashtbl.itemMemory, free,
          t.unHash32_hash, t.head?_hash, Option.isSome_none, Bool.false_eq_true, if_false,
          Option.bind_eq_bind, Heap.setNext_alloc, table, items]
        cases Heap.setPrev _ (t.table (unHash (castKey key))) (some item) with
        | none => rfl
        | some items' =>
            have written : (t.withList l nodes).nodes = nodes := rfl
            simp only [Option.bind_some, Option.map_some, Option.pure_def, Heap.write, written]
            cases nodes node with
            | none => rfl
            | some cell =>
                simp only [Option.bind_eq_bind, Option.bind_some, Function.update_self,
                  Function.update_idem, Option.map_some, ← bound]
                rfl
  · rfl

end Container

/-- The entry of a slot in the hash table. -/
def slotEntry (e : Slot) : ItemPtr × HashEntry NodePtr :=
  (e.item, ⟨e.key, e.node⟩)

/-- The hash table has exactly the entries of these slots, in any order. -/
def Entered (items : ItemMemory NodePtr) (hash : HashTbl) (slots : List Slot) : Prop :=
  ∃ entries, entries.Perm (slots.map slotEntry) ∧ hash.Holds items entries

namespace Entered

variable {items items' : ItemMemory NodePtr} {hash : HashTbl} {slots slots' : List Slot}

/-- The items of a hash table, in any order. -/
theorem mem_items {entries : List (ItemPtr × HashEntry NodePtr)}
    (perm : entries.Perm (slots.map slotEntry)) {p : ItemPtr} :
    p ∈ entries.map Prod.fst ↔ p ∈ slots.map Slot.item := by
  rw [(perm.map Prod.fst).mem_iff, List.map_map]
  rfl

/-- The order in which entries were made does not matter to the hash table. -/
theorem perm (entered : Entered items hash slots) (same : slots.Perm slots') :
    Entered items hash slots' := by
  obtain ⟨entries, perm, holds⟩ := entered
  exact ⟨entries, perm.trans (same.map slotEntry), holds⟩

/-- The item of a slot has its key and its node. -/
theorem data (entered : Entered items hash slots) {e : Slot} (member : e ∈ slots) :
    items.items.dataAt e.item = some ⟨e.key, e.node⟩ := by
  obtain ⟨entries, perm, holds⟩ := entered
  exact holds.chained.data (slotEntry e) (perm.mem_iff.mpr (List.mem_map_of_mem member))

/-- A free item has no slot. -/
theorem item_notMem (entered : Entered items hash slots) {item : ItemPtr}
    (free : items.items item = none) : item ∉ slots.map Slot.item := by
  intro member
  obtain ⟨e, listed, rfl⟩ := List.mem_map.mp member
  cases (entered.data listed).symm.trans (Heap.dataAt_eq_none_iff.mpr free)

/-- Memory that changes elsewhere. -/
theorem congr (entered : Entered items hash slots)
    (same : ∀ p ∈ slots.map Slot.item, items'.items p = items.items p)
    (live : slots.length ≤ items'.live) : Entered items' hash slots := by
  obtain ⟨entries, perm, holds⟩ := entered
  refine ⟨entries, perm, holds.congr (fun p member => same p ((mem_items perm).mp member)) ?_⟩
  rwa [perm.length_eq, List.length_map]

/-- The entry of a slot is the only one with its key, so it is the one that is removed. -/
theorem removeEntry {before after : List Slot} {e : Slot}
    (entered : Entered items hash (before ++ e :: after))
    (keys : ((before ++ e :: after).map Slot.key).Nodup) :
    ∃ hash' items', hash.removeEntry e.key items = some (true, hash', items') ∧
      Entered items' hash' (before ++ after) ∧ items'.items e.item = none ∧
      items'.live = items.live - 1 ∧
      ∀ p, p ∉ (before ++ e :: after).map Slot.item → items'.items p = items.items p := by
  obtain ⟨entries, perm, holds⟩ := entered
  have member : slotEntry e ∈ entries :=
    perm.mem_iff.mpr (List.mem_map_of_mem (List.mem_append_right _ List.mem_cons_self))
  obtain ⟨pre, post, rfl⟩ := List.append_of_mem member
  have unique : ∀ entry ∈ pre, entry.2.key ≠ e.key := by
    have distinct : ((pre ++ slotEntry e :: post).map fun e => e.2.key).Nodup := by
      refine (perm.map fun e => e.2.key).nodup_iff.mpr ?_
      rw [List.map_map]
      exact keys
    intro entry inPre same
    exact notMem_map_middle distinct
      (List.mem_map.mpr ⟨entry, List.mem_append_left _ inPre, same⟩)
  have split : hash.Holds items (pre ++ (e.item, ⟨e.key, e.node⟩) :: post) := holds
  obtain ⟨hash', items', removed, holds', -, live, deleted, elsewhere⟩ := split.removeEntry2 unique
  refine ⟨hash', items', ?_, ⟨pre ++ post, ?_, holds'⟩, deleted, live,
    fun p outside => elsewhere p fun member => outside ((mem_items perm).mp member)⟩
  · rw [HashTbl.removeEntry, removed]
    rfl
  · rw [List.map_append, List.map_cons] at perm
    rw [List.map_append]
    exact ((List.perm_middle.symm.trans perm).trans List.perm_middle).cons_inv

end Entered

section Memory

variable {m : Memory} {hash : HashTbl} {slots : List Slot}

/-- A new entry for a node. -/
theorem enter_eq (entered : Entered m.entries hash slots) {item : ItemPtr}
    (free : m.entries.items item = none) (key : Key) {node : NodePtr}
    {cell : Cell NodePtr NodeKey} (read : m.nodes node = some cell) :
    ∃ hash' m', enter hash item key node m = some (hash', m') ∧
      Entered m'.entries hash' (⟨key, node, item⟩ :: slots) ∧
      m'.nodes = Function.update m.nodes node
        (some { cell with data := { cell.data with key := some item } }) ∧
      m'.entries.live = m.entries.live + 1 ∧
      ∀ p, p ≠ item → p ∉ slots.map Slot.item → m'.entries.items p = m.entries.items p := by
  obtain ⟨entries, perm, holds⟩ := entered
  obtain ⟨hash', entries', added, holds', -, live, elsewhere⟩ := holds.addItem free key node
  refine ⟨hash', ⟨Function.update m.nodes node
    (some { cell with data := { cell.data with key := some item } }), entries'⟩, ?_,
    ⟨_, perm.cons _, holds'⟩, rfl, live, fun p other outside => elsewhere p ?_⟩
  · simp only [enter, free, Option.isSome_none, Bool.false_eq_true, if_false, HashTbl.addEntry2,
      HashTbl.unHash32_eq, added, Option.map_some, Heap.write, read, Option.bind_eq_bind,
      Option.bind_some, Option.pure_def]
  · rw [List.map_cons, List.mem_cons, not_or, Entered.mem_items perm]
    exact ⟨other, outside⟩

/-- Bytes of a key that is there. -/
theorem keyBytes_eq {item : ItemPtr} {entry : HashEntry NodePtr}
    (data : m.entries.items.dataAt item = some entry) {length : ℕ}
    (inside : length ≤ entry.key.length) :
    m.keyBytes (some item) length = some (entry.key.take length) := by
  obtain ⟨cell, read, rfl⟩ := Option.map_eq_some_iff.mp data
  simp only [Memory.keyBytes, read, Option.bind_eq_bind, Option.bind_some, if_pos inside,
    Option.pure_def]

/-- Bytes of a key whose item was deleted. -/
theorem keyBytes_deleted {item : ItemPtr} (deleted : m.entries.items item = none) (length : ℕ) :
    m.keyBytes (some item) length = none := by
  simp only [Memory.keyBytes, deleted, Option.bind_eq_bind, Option.bind_none]

end Memory

namespace Container

/-- The container holds exactly these slots: the list in their order, the hash table in any
order, and nodes and items point at each other. -/
structure Holds (m : Memory) (c : Container) (slots : List Slot) : Prop where
  keys : (slots.map Slot.key).Nodup
  listed : c.list.Holds m.nodes (slots.map Slot.node)
  counted : c.list.count ≤ maxCount
  hashed : Entered m.entries c.hash slots
  nodeData : ∀ e ∈ slots, m.nodes.dataAt e.node = some ⟨some e.item, e.key.length⟩

namespace Holds

variable {m m' : Memory} {c : Container} {slots : List Slot}

/-- The constructed container. -/
theorem empty {initSize : ℕ} {hash : HashTbl} (constructed : HashTbl.new initSize = some hash)
    (m : Memory) : Holds m { hash := hash } [] where
  keys := List.nodup_nil
  listed := .empty _
  counted := (by decide : (0 : Int) ≤ maxCount)
  hashed := ⟨[], .refl _, .of_new constructed _⟩
  nodeData _ member := absurd member List.not_mem_nil

/-- A node of the container is found under its key. -/
theorem findEntry_of_mem (holds : Holds m c slots) {e : Slot} (member : e ∈ slots) :
    c.findEntry e.key m = some (some e.node) := by
  obtain ⟨entries, perm, hashed⟩ := holds.hashed
  rw [findEntry, hashed.findEntry_eq]
  cases found : HashTbl.entryOf? e.key entries with
  | none =>
      have listed : slotEntry e ∈ entries := perm.mem_iff.mpr (List.mem_map_of_mem member)
      exact absurd (decide_eq_true rfl) (List.find?_eq_none.mp found _ listed)
  | some entry =>
      obtain ⟨chained, same⟩ := HashTbl.entryOf?_eq_some found
      obtain ⟨other, listed, rfl⟩ := List.mem_map.mp (perm.mem_iff.mp chained)
      rw [List.inj_on_of_nodup_map holds.keys listed member same]
      rfl

/-- What is found under a key is a node of the container. -/
theorem mem_of_findEntry (holds : Holds m c slots) {key : Key} {node : NodePtr}
    (found : c.findEntry key m = some (some node)) : ∃ e ∈ slots, e.key = key ∧ e.node = node := by
  obtain ⟨entries, perm, hashed⟩ := holds.hashed
  rw [findEntry, hashed.findEntry_eq, Option.some.injEq, Option.map_eq_some_iff] at found
  obtain ⟨entry, found, rfl⟩ := found
  obtain ⟨chained, same⟩ := HashTbl.entryOf?_eq_some found
  obtain ⟨e, listed, rfl⟩ := List.mem_map.mp (perm.mem_iff.mp chained)
  exact ⟨e, listed, same, rfl⟩

/-- No other key is found. -/
theorem findEntry_of_notMem (holds : Holds m c slots) {key : Key}
    (absent : key ∉ slots.map Slot.key) : c.findEntry key m = some none := by
  cases found : c.findEntry key m with
  | none =>
      obtain ⟨entries, perm, hashed⟩ := holds.hashed
      rw [findEntry, hashed.findEntry_eq] at found
      cases found
  | some result =>
      cases result with
      | none => rfl
      | some node =>
          obtain ⟨e, member, rfl, -⟩ := holds.mem_of_findEntry found
          exact absurd (List.mem_map_of_mem member) absent

/-- The container with one more slot at the end of its list. -/
theorem append {c' : Container} {e : Slot} (holds : Holds m c slots)
    (absent : e.key ∉ slots.map Slot.key) (room : c.list.count + 1 ≤ maxCount)
    (listed : c'.list.Holds m'.nodes (slots.map Slot.node ++ [e.node]))
    (hashed : Entered m'.entries c'.hash (e :: slots))
    (here : m'.nodes.dataAt e.node = some ⟨some e.item, e.key.length⟩)
    (elsewhere : ∀ p, p ≠ e.node → m'.nodes.dataAt p = m.nodes.dataAt p) :
    Holds m' c' (slots ++ [e]) := by
  have outside : e.node ∉ slots.map Slot.node := by
    have distinct := listed.distinct
    rw [List.nodup_append_comm] at distinct
    exact (List.nodup_cons.mp distinct).1
  refine ⟨?_, ?_, ?_, hashed.perm (List.perm_append_singleton e slots).symm, fun e' member => ?_⟩
  · rw [List.map_append, List.map_singleton, List.nodup_append_comm]
    exact List.nodup_cons.mpr ⟨absent, holds.keys⟩
  · rw [List.map_append, List.map_singleton]
    exact listed
  · rw [listed.count, List.length_append, Int.natCast_add, ← holds.listed.count]
    exact room
  · rcases List.mem_append.mp member with old | new
    · have other : e'.node ≠ e.node := fun same => outside (same ▸ List.mem_map_of_mem old)
      exact (elsewhere _ other).trans (holds.nodeData e' old)
    · rw [List.mem_singleton.mp new]
      exact here

/-- `AddData` of a node that is not in the container, under a key that the container does not
have. Only the cells of its own nodes and items are written. -/
theorem addData (holds : Holds m c slots) (e : Slot) (allocated : m.nodes e.node ≠ none)
    (outside : e.node ∉ slots.map Slot.node) (free : m.entries.items e.item = none)
    (short : e.key.length < 2 ^ 32) (absent : e.key ∉ slots.map Slot.key)
    (room : c.list.count + 1 ≤ maxCount) :
    ∃ c' m', c.addData e.node e.item e.key m = some (true, c', m') ∧
      Holds m' c' (slots ++ [e]) ∧ m'.entries.live = m.entries.live + 1 ∧
      (∀ p, p ≠ e.node → p ∉ slots.map Slot.node → m'.nodes p = m.nodes p) ∧
      ∀ p, p ≠ e.item → p ∉ slots.map Slot.item → m'.entries.items p = m.entries.items p := by
  obtain ⟨list, nodes, added, listed, relinks⟩ := holds.listed.addDataRaw outside allocated room
  obtain ⟨cell, read⟩ : ∃ cell, nodes e.node = some cell := by
    rw [← Option.ne_none_iff_exists', ne_eq, ← Heap.dataAt_eq_none_iff, relinks.data,
      Heap.dataAt_eq_none_iff]
    exact allocated
  have hashed : Entered ({ m with nodes := nodes } : Memory).entries c.hash slots := holds.hashed
  obtain ⟨hash, m₁, entered, hashed', nodes₁, live, elsewhere⟩ := enter_eq hashed free e.key read
  let nodes₂ := Function.update nodes e.node
    (some { cell with data := ⟨some e.item, e.key.length⟩ })
  have linked : list.Holds nodes₂ (slots.map Slot.node ++ [e.node]) :=
    listed.congr_links fun p _ => Heap.linksAt_update read _ p
  have dataHere : Heap.dataAt nodes₂ e.node = some ⟨some e.item, e.key.length⟩ := by
    simp only [nodes₂, Heap.dataAt, Function.update_self, Option.map_some]
  have dataElsewhere (p : NodePtr) (other : p ≠ e.node) :
      Heap.dataAt nodes₂ p = m.nodes.dataAt p :=
    (Heap.dataAt_update_of_ne other _).trans (relinks.data p)
  refine ⟨⟨hash, list⟩, ⟨nodes₂, m₁.entries⟩, ?_,
    holds.append absent room linked hashed' dataHere dataElsewhere, live,
    fun p other unlisted => ?_, elsewhere⟩
  · simp only [Container.addData, castKey_of_lt short, holds.findEntry_of_notMem absent, added,
      entered, nodes₁, Heap.write, Function.update_self, Function.update_idem, Option.bind_eq_bind,
      Option.bind_some, Option.pure_def]
    rfl
  · refine (Function.update_of_ne other _ _).trans (relinks.others p ?_)
    rw [List.mem_cons, not_or]
    exact ⟨other, unlisted⟩

/-- Memory that changes elsewhere. -/
theorem congr (holds : Holds m c slots)
    (nodes : ∀ p ∈ slots.map Slot.node, m'.nodes p = m.nodes p)
    (items : ∀ p ∈ slots.map Slot.item, m'.entries.items p = m.entries.items p)
    (live : slots.length ≤ m'.entries.live) : Holds m' c slots where
  keys := holds.keys
  listed := holds.listed.congr_links fun p member => by
    rw [Heap.linksAt, nodes p member, Heap.linksAt]
  counted := holds.counted
  hashed := holds.hashed.congr items live
  nodeData e member := by
    rw [Heap.dataAt, nodes _ (List.mem_map_of_mem member)]
    exact holds.nodeData e member

end Holds

end Container

/-- Two containers that both satisfy the invariant and have nothing in common. -/
structure Pair (m : Memory) (a b : Container) (slotsA slotsB : List Slot) : Prop where
  first : a.Holds m slotsA
  second : b.Holds m slotsB
  nodes : (slotsA.map Slot.node).Disjoint (slotsB.map Slot.node)
  items : (slotsA.map Slot.item).Disjoint (slotsB.map Slot.item)
  live : slotsA.length + slotsB.length ≤ m.entries.live

namespace Pair

variable {m : Memory} {a b : Container} {slotsA slotsB : List Slot}

/-- The two containers have the same role. -/
theorem symm (pair : Pair m a b slotsA slotsB) : Pair m b a slotsB slotsA where
  first := pair.second
  second := pair.first
  nodes := List.disjoint_symm pair.nodes
  items := List.disjoint_symm pair.items
  live := by rw [Nat.add_comm]; exact pair.live

end Pair

end Common

end CppRaft
