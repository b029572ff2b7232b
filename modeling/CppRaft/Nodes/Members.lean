import CppRaft.Nodes.Refinement

/-!
# The members that the node table holds

The keys that were added and not removed since, with their nodes in the order of
insertion, are what lookups, traversals and the counter of the table show. A key
of `2 ^ 32` bytes or more is entered under the part that the cast of its length
leaves, and is not found again.
-/

namespace CppRaft

open Machine Store

/-- What a call does to the map of the members. -/
def TableCall.meaning : TableCall → OrderedMap Key NodePtr → OrderedMap Key NodePtr
  | .addNode key node _, m => m.insert key node
  | .removeNode1 key, m => m.erase key
  | .removeNode2 node, m => m.eraseValue node
  | .clearAllNodes, _ => .empty

/-- A call whose key the cast of its length does not cut. -/
def TableCall.KeyFits : TableCall → Prop
  | .addNode key _ _ => key.length < 2 ^ 32
  | _ => True

instance : (call : TableCall) → Decidable call.KeyFits
  | .addNode key _ _ => inferInstanceAs (Decidable (key.length < 2 ^ 32))
  | .removeNode1 _ => inferInstanceAs (Decidable True)
  | .removeNode2 _ => inferInstanceAs (Decidable True)
  | .clearAllNodes => inferInstanceAs (Decidable True)

/-- One call of a run. -/
abbrev TableStep : Type :=
  Transition ListspecialAndHashtbl TableCall (Option NodePtr)

/-- The members after a run: what was added and not removed since. -/
def membersAfter (trace : List TableStep) : OrderedMap Key NodePtr :=
  trace.foldl (fun m step => step.event.meaning m) .empty

/-- The members are computed call by call. -/
theorem membersAfter_append_singleton (trace : List TableStep) (step : TableStep) :
    membersAfter (trace ++ [step]) = step.event.meaning (membersAfter trace) := by
  simp [membersAfter]

namespace ListspecialAndHashtbl

/-- The table holds the entries of the map. -/
def Refines (t : ListspecialAndHashtbl) (m : OrderedMap Key NodePtr) : Prop :=
  ∃ slots, Represents t slots ∧ m.entries = slots.map Slot.entry

/-- A call that the table has to serve: the allocator yields memory that is not in use, the
counter does not overflow, and a node that is removed is in the table. -/
def Serves (t : ListspecialAndHashtbl) : TableCall → Prop
  | .addNode _ node item => t.nodes node = none ∧ t.items item = none ∧ t.count < maxCount
  | .removeNode2 node => ∃ key, t.findNode key = some (some node)
  | _ => True

variable {t : ListspecialAndHashtbl} {m : OrderedMap Key NodePtr}

/-- The table of a new server holds the empty map. -/
theorem refines_empty : Refines {} .empty :=
  ⟨[], represents_nil, rfl⟩

private theorem find?_entries (m : OrderedMap Key NodePtr) {slots : List Slot}
    (entries : m.entries = slots.map Slot.entry) (key : Key) :
    m.find? key = (slotOf? key slots).map Slot.node := by
  rw [OrderedMap.find?, entries, List.find?_map, Option.map_map]
  rfl

private theorem values_entries (m : OrderedMap Key NodePtr) {slots : List Slot}
    (entries : m.entries = slots.map Slot.entry) : m.values = slots.map Slot.node := by
  rw [OrderedMap.values, entries, List.map_map]
  rfl

private theorem keys_entries (m : OrderedMap Key NodePtr) {slots : List Slot}
    (entries : m.entries = slots.map Slot.entry) : m.keys = slots.map Slot.key := by
  rw [OrderedMap.keys, entries, List.map_map]
  rfl

namespace Refines

/-- `FindNode` looks a key up in the map. -/
theorem findNode (refines : Refines t m) (key : Key) : t.findNode key = some (m.find? key) := by
  obtain ⟨slots, rep, entries⟩ := refines
  rw [ListspecialAndHashtbl.findNode, rep.findEntry_eq, find?_entries m entries]

/-- A traversal by `next` meets the members in the order in which they were added. -/
theorem forward (refines : Refines t m) : t.forward = some m.values := by
  obtain ⟨slots, rep, entries⟩ := refines
  rw [rep.forward_eq, values_entries m entries]

/-- A traversal by `prev` meets them in the opposite order. -/
theorem backward (refines : Refines t m) : t.backward = some m.values.reverse := by
  obtain ⟨slots, rep, entries⟩ := refines
  rw [rep.backward_eq, values_entries m entries]

/-- No node is in the list twice. -/
theorem nodup_values (refines : Refines t m) : m.values.Nodup := by
  obtain ⟨slots, rep, entries⟩ := refines
  rw [values_entries m entries]
  exact rep.nodes

/-- The counter of the list is the number of members. -/
theorem count (refines : Refines t m) : t.count = m.entries.length := by
  obtain ⟨slots, rep, entries⟩ := refines
  rw [rep.count, entries, List.length_map]

/-- Removing a key takes its entry out of the map, and changes nothing if there is none. -/
theorem removeNode1 (refines : Refines t m) (key : Key) :
    ∃ t', t.removeNode1 key = some t' ∧ Refines t' (m.erase key) := by
  obtain ⟨slots, rep, entries⟩ := refines
  cases found : slotOf? key slots with
  | none =>
      have absent : key ∉ m.keys := by
        rw [← m.find?_eq_none_iff, find?_entries m entries, found, Option.map_none]
      exact ⟨t, rep.removeNode1_absent found, slots, rep, by rw [m.erase_of_notMem absent, entries]⟩
  | some e =>
      obtain ⟨member, rfl⟩ := slotOf?_eq_some found
      obtain ⟨before, after, rfl⟩ := List.append_of_mem member
      obtain ⟨t', removed, rep'⟩ := rep.removeNode1_present
      rw [List.map_append, List.map_cons] at entries
      refine ⟨t', removed, before ++ after, rep', ?_⟩
      rw [List.map_append]
      exact m.entries_erase entries

/-- Removing a node of the table. -/
theorem removeNode2 (refines : Refines t m) {node : NodePtr} (member : node ∈ m.values) :
    ∃ t', t.removeNode2 node = some t' ∧ Refines t' (m.eraseValue node) := by
  have distinct := refines.nodup_values
  obtain ⟨slots, rep, entries⟩ := refines
  rw [values_entries m entries] at member
  obtain ⟨e, listed, rfl⟩ := List.mem_map.mp member
  obtain ⟨before, after, rfl⟩ := List.append_of_mem listed
  obtain ⟨t', removed, rep'⟩ := rep.removeNode1_present
  rw [List.map_append, List.map_cons] at entries
  refine ⟨t', (rep.removeNode2_eq listed).trans removed, before ++ after, rep', ?_⟩
  rw [List.map_append]
  exact m.entries_eraseValue entries distinct

/-- `ClearAllNodes` leaves the empty map, with all nodes and items freed. -/
theorem clearAllNodes (refines : Refines t m) :
    ∃ t', t.clearAllNodes = some t' ∧ Refines t' .empty := by
  obtain ⟨slots, rep, -⟩ := refines
  obtain ⟨t', cleared, rep'⟩ := rep.clearAllNodes_eq
  exact ⟨t', cleared, [], rep', rfl⟩

/-- Adding a member changes nothing. -/
theorem addNode_mem (refines : Refines t m) {key : Key} (present : key ∈ m.keys) (node : NodePtr)
    (item : ItemPtr) : t.addNode key node item = some (none, t) := by
  obtain ⟨slots, rep, entries⟩ := refines
  rw [keys_entries m entries] at present
  obtain ⟨e, member, rfl⟩ := List.mem_map.mp present
  exact rep.addNode_present member node item

/-- Adding any other key that fits. -/
theorem addNode_notMem (refines : Refines t m) {key : Key} {node : NodePtr} {item : ItemPtr}
    (absent : key ∉ m.keys) (short : key.length < 2 ^ 32) (freeNode : t.nodes node = none)
    (freeItem : t.items item = none) (room : t.count < maxCount) :
    ∃ t', t.addNode key node item = some (some node, t') ∧ Refines t' (m.insert key node) := by
  obtain ⟨slots, rep, entries⟩ := refines
  have unfound : slotOf? key slots = none := by
    rwa [← Option.map_eq_none_iff, ← find?_entries m entries, m.find?_eq_none_iff]
  obtain ⟨t', added, rep'⟩ :=
    rep.addNode_absent ⟨key, node, item⟩ short unfound freeNode freeItem room
  refine ⟨t', added, _, rep', ?_⟩
  rw [m.entries_insert_of_notMem node absent, entries, List.map_append]
  rfl

/-- The counter of a full table overflows. -/
theorem addNode_full (refines : Refines t m) {key : Key} {node : NodePtr} {item : ItemPtr}
    (absent : key ∉ m.keys) (short : key.length < 2 ^ 32) (full : ¬t.count < maxCount) :
    t.addNode key node item = none := by
  have unfound : t.findEntry key = some none :=
    (refines.findNode key).trans (congrArg some ((m.find?_eq_none_iff key).mpr absent))
  have unfound' : { t with nodes := t.nodes.alloc node ⟨none, none, {}⟩ }.findEntry key =
      some none := unfound
  simp [ListspecialAndHashtbl.addNode, unfound, addData, castKey_of_lt short, unfound',
    addDataRaw, full]

/-- A call that the table has to serve has an effect: none of its pointers leads outside the
memory. -/
theorem call_isSome (refines : Refines t m) {c : TableCall} (fits : c.KeyFits)
    (serves : t.Serves c) : (t.call c).isSome := by
  cases c with
  | addNode key node item =>
      obtain ⟨freeNode, freeItem, room⟩ := serves
      rw [ListspecialAndHashtbl.call, if_pos ⟨freeNode, freeItem⟩]
      by_cases present : key ∈ m.keys
      · rw [refines.addNode_mem present, Option.isSome_some]
      · obtain ⟨t', added, -⟩ := refines.addNode_notMem present fits freeNode freeItem room
        rw [added, Option.isSome_some]
  | removeNode1 key =>
      obtain ⟨t', removed, -⟩ := refines.removeNode1 key
      rw [ListspecialAndHashtbl.call, removed, Option.map_some, Option.isSome_some]
  | removeNode2 node =>
      obtain ⟨key, found⟩ := serves
      rw [refines.findNode, Option.some.injEq, m.find?_eq_some_iff] at found
      obtain ⟨t', removed, -⟩ := refines.removeNode2 (List.mem_map_of_mem found)
      rw [ListspecialAndHashtbl.call, removed, Option.map_some, Option.isSome_some]
  | clearAllNodes =>
      obtain ⟨t', cleared, -⟩ := refines.clearAllNodes
      rw [ListspecialAndHashtbl.call, cleared, Option.map_some, Option.isSome_some]

/-- Every node that is allocated is a member: the table frees what it removes, so nothing is
lost. -/
theorem mem_values (refines : Refines t m) {node : NodePtr} (allocated : t.nodes node ≠ none) :
    node ∈ m.values := by
  obtain ⟨slots, rep, entries⟩ := refines
  rw [values_entries m entries]
  exact rep.allocated node allocated

/-- Every call with an effect does to the map what it means. This is the refinement: the two
structures of the table stay in step with one ordered map. -/
theorem call (refines : Refines t m) {c : TableCall} (fits : c.KeyFits) {r : Option NodePtr}
    {t' : ListspecialAndHashtbl} (called : t.call c = some (r, t')) :
    Refines t' (c.meaning m) := by
  cases c with
  | addNode key node item =>
      rw [ListspecialAndHashtbl.call, Option.ite_none_right_eq_some] at called
      obtain ⟨⟨freeNode, freeItem⟩, added⟩ := called
      by_cases present : key ∈ m.keys
      · rw [refines.addNode_mem present] at added
        cases added
        rwa [TableCall.meaning, m.insert_of_mem node present]
      · by_cases room : t.count < maxCount
        · obtain ⟨t'', added', refines'⟩ :=
            refines.addNode_notMem present fits freeNode freeItem room
          cases added.symm.trans added'
          exact refines'
        · rw [refines.addNode_full present fits room] at added
          cases added
  | removeNode1 key =>
      obtain ⟨t'', removed, refines'⟩ := refines.removeNode1 key
      rw [ListspecialAndHashtbl.call, removed] at called
      cases called
      exact refines'
  | removeNode2 node =>
      have allocated : t.nodes node ≠ none := by
        intro released
        simp [ListspecialAndHashtbl.call, ListspecialAndHashtbl.removeNode2, released] at called
      obtain ⟨t'', removed, refines'⟩ := refines.removeNode2 (refines.mem_values allocated)
      rw [ListspecialAndHashtbl.call, removed] at called
      cases called
      exact refines'
  | clearAllNodes =>
      obtain ⟨t'', cleared, refines'⟩ := refines.clearAllNodes
      rw [ListspecialAndHashtbl.call, cleared] at called
      cases called
      exact refines'

end Refines

/-- In every run with keys that fit, the table holds the members. -/
theorem refines_membersAfter {trace : List TableStep} {t : ListspecialAndHashtbl}
    (run : machine.Run {} trace t) (fits : ∀ step ∈ trace, step.event.KeyFits) :
    Refines t (membersAfter trace) := by
  refine run.invariant_along (P := fun _ step => step.event.KeyFits)
    (fun trace t => Refines t (membersAfter trace)) refines_empty ?_ (along_of_forall fits)
  intro trace t c effect _ refines stepped fits
  obtain ⟨⟨r, t'⟩, called, rfl⟩ := Option.map_eq_some_iff.mp stepped
  rw [membersAfter_append_singleton]
  exact refines.call fits called

/-- `AddNode` returns `NULL` and changes nothing exactly when the key is found. -/
theorem call_addNode_null_iff {key : Key} {node : NodePtr} {item : ItemPtr} {r : Option NodePtr}
    {t' : ListspecialAndHashtbl} (called : t.call (.addNode key node item) = some (r, t')) :
    r = none ∧ t' = t ↔ ∃ present, t.findNode key = some (some present) := by
  rw [call, Option.ite_none_right_eq_some] at called
  obtain ⟨-, added⟩ := called
  simp only [addNode, Option.bind_eq_bind, Option.bind_eq_some_iff] at added
  obtain ⟨found, search, added⟩ := added
  rw [findNode, search]
  cases found with
  | none =>
      obtain ⟨⟨_, t''⟩, -, returned⟩ := Option.bind_eq_some_iff.mp added
      cases returned
      simp
  | some present =>
      cases added
      simp

/-- After every sequence of calls with keys shorter than `2 ^ 32` bytes, lookups, insertions,
traversals and the counter show exactly the members, and the calls to come are served. -/
theorem table_shows_members (trace : List TableStep) (t : ListspecialAndHashtbl)
    (run : machine.Run {} trace t) (fits : ∀ step ∈ trace, step.event.KeyFits) :
    (∀ key, t.findNode key = some ((membersAfter trace).find? key)) ∧
      (∀ key node item r t', t.call (.addNode key node item) = some (r, t') →
        (r = none ∧ t' = t ↔ ∃ present, t.findNode key = some (some present))) ∧
      t.forward = some (membersAfter trace).values ∧
      t.backward = some (membersAfter trace).values.reverse ∧
      (membersAfter trace).values.Nodup ∧
      t.count = (membersAfter trace).keys.length ∧
      ∀ c : TableCall, c.KeyFits → t.Serves c → (t.call c).isSome := by
  have refines := refines_membersAfter run fits
  refine ⟨refines.findNode, fun _ _ _ _ _ called => call_addNode_null_iff called,
    refines.forward, refines.backward, refines.nodup_values, ?_,
    fun c fits serves => refines.call_isSome fits serves⟩
  rw [refines.count, OrderedMap.keys, List.length_map]

/-- Two keys; the first one is added again, removed through its node and added once more. -/
def addAgain (first second : Key) : List TableCall :=
  [.addNode first 10 20, .addNode second 11 21, .addNode first 12 22, .removeNode2 10,
    .addNode first 13 23]

/-- A key that is added twice keeps its first node; removed and added once more, it is at
the end of the list. -/
theorem table_shows_members_addAgain :
    ((machine.stateOf {} (addAgain [1] [2])).forward = some [11, 13] ∧
      (machine.stateOf {} (addAgain [1] [2])).backward = some [13, 11] ∧
      (machine.stateOf {} (addAgain [1] [2])).findNode [1] = some (some 13)) ∧
    ((machine.stateOf {} (addAgain [1] [2])).count =
      (membersAfter (machine.traceOf {} (addAgain [1] [2]))).keys.length) :=
  ⟨by decide +kernel, (table_shows_members _ _ (run_traceOf machine {} (addAgain [1] [2])
    (by decide +kernel)) (by decide +kernel)).2.2.2.2.2.1⟩

/-- The table after adding a key whose length is cut to zero. -/
def cutTable (key : Key) : ListspecialAndHashtbl where
  nodes := Function.update (fun _ => none) 1 (some ⟨none, none, ⟨some 1, key.length⟩⟩)
  items := Function.update (fun _ => none) 1 (some ⟨none, none, ⟨[], 1⟩⟩)
  table := Function.update (fun _ => none) (unHash []) (some 1)
  first := some 1
  last := some 1
  count := 1

/-- A key whose length the cast to 32 bits cuts to zero is entered under the empty key. -/
theorem call_addNode_cut {key : Key} (cut : castLength key.length = 0) :
    call (.addNode key 1 1) {} = some (some 1, cutTable key) := by
  have cutKey : castKey key = [] := by rw [castKey, cut, List.take_zero]
  simp [call, addNode, findEntry, findItem, Heap.search, addData, cutKey, addDataRaw, Heap.write,
    Heap.alloc, maxCount, addEntry2, Heap.setNext, Heap.setPrev, cutTable, bound]

/-- Such a key is not found again, although its node is in the list. -/
theorem findNode_cutTable {key : Key} (nonempty : key ≠ []) :
    (cutTable key).findNode key = some none := by
  by_cases same : unHash key = unHash []
  · simp [findNode, findEntry, findItem, cutTable, same, bound, Heap.search, nonempty.symm]
  · simp [findNode, findEntry, findItem, cutTable, same, bound, Heap.search]

/-- A key of `2 ^ 32` bytes is added and not found, and the empty key is found and was not
added. -/
theorem long_key_not_found :
    machine.Run {} [⟨{}, .addNode (List.replicate (2 ^ 32) 0) 1 1,
        cutTable (List.replicate (2 ^ 32) 0), [some 1]⟩] (cutTable (List.replicate (2 ^ 32) 0)) ∧
      (cutTable (List.replicate (2 ^ 32) 0)).findNode (List.replicate (2 ^ 32) 0) = some none ∧
      (cutTable (List.replicate (2 ^ 32) 0)).findNode [] = some (some 1) := by
  have length := List.length_replicate (n := 2 ^ 32) (a := (0 : UInt8))
  generalize List.replicate (2 ^ 32) (0 : UInt8) = key at length
  have cut : castLength key.length = 0 := by rw [castLength, length, Nat.mod_self]
  have nonempty : key ≠ [] := List.ne_nil_of_length_pos (by omega)
  refine ⟨?_, findNode_cutTable nonempty, ?_⟩
  · have stepped : machine.step {} (.addNode key 1 1) = some ⟨cutTable key, [some 1]⟩ := by
      simp only [machine, call_addNode_cut cut, Option.map_some]
    exact Run.nil.snoc stepped
  · simp [findNode, findEntry, findItem, cutTable, bound, Heap.search]

end ListspecialAndHashtbl

end CppRaft
