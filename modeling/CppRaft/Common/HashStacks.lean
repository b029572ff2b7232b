import CppRaft.Common.HashTbl

/-!
# The hash table is a map of stacks

Adding an entry pushes its data on the stack of its key, removing an entry pops that stack, and
looking a key up reads its top. The chains, the mask and the double unlinking of an item do not
show, whichever keys collide.
-/

namespace CppRaft

namespace Common

open Machine Store

/-- A call on a table, with the item that it allocates. -/
inductive HashCall (D : Type) where
  | addEntry (key : Key) (data : D) (item : ItemPtr)
  | addEntry2 (key : Key) (data : D) (item : ItemPtr)
  | removeEntry (key : Key)
  | removeEntry2 (key : Key)
  | findEntry (key : Key)
  deriving DecidableEq, Repr

/-- What a call returns: the code of `AddEntry`, the key pointer of `AddEntry2`, whether
`RemoveEntry` removed something, or the data that is found. -/
inductive HashResult (D : Type) where
  | code (value : Int)
  | keyCopy (item : Option ItemPtr)
  | removed (value : Bool)
  | found (data : Option D)
  deriving DecidableEq, Repr

namespace HashCall

variable {D : Type}

/-- What a call does to the stacks. -/
def meaning : HashCall D → (Key → List D) → Key → List D
  | addEntry key data _, stack => Function.update stack key (data :: stack key)
  | addEntry2 key data _, stack => Function.update stack key (data :: stack key)
  | removeEntry key, stack => Function.update stack key (stack key).tail
  | removeEntry2 key, stack => Function.update stack key (stack key).tail
  | findEntry _, stack => stack

/-- What a call returns for the stacks. -/
def result : HashCall D → (Key → List D) → HashResult D
  | addEntry _ _ _, _ => .code 0
  | addEntry2 _ _ item, _ => .keyCopy (some item)
  | removeEntry key, stack => .removed (stack key).head?.isSome
  | removeEntry2 key, stack => .found (stack key).head?
  | findEntry key, stack => .found (stack key).head?

/-- The item that a call allocates. -/
def allocates : HashCall D → Option ItemPtr
  | addEntry _ _ item => some item
  | addEntry2 _ _ item => some item
  | _ => none

end HashCall

/-- A table with the memory of its items. -/
structure Hashed (D : Type) where
  hash : HashTbl
  memory : ItemMemory D := {}

namespace Hashed

variable {D : Type}

/-- `FindEntry` on the table. -/
def findEntry (s : Hashed D) (key : Key) : Option (Option D) :=
  s.hash.findEntry key s.memory

/-- The effect of a call whose item is free. -/
def perform : HashCall D → Hashed D → Option (HashResult D × Hashed D)
  | .addEntry key data item, s =>
      (s.hash.addEntry item key data s.memory).map fun (code, t, m) => (.code code, ⟨t, m⟩)
  | .addEntry2 key data item, s =>
      (s.hash.addEntry2 item key data s.memory).map fun (copy, t, m) => (.keyCopy copy, ⟨t, m⟩)
  | .removeEntry key, s =>
      (s.hash.removeEntry key s.memory).map fun (removed, t, m) => (.removed removed, ⟨t, m⟩)
  | .removeEntry2 key, s =>
      (s.hash.removeEntry2 key s.memory).map fun (data, t, m) => (.found data, ⟨t, m⟩)
  | .findEntry key, s => (s.findEntry key).map fun data => (.found data, s)

/-- The memory that a call allocates is not in use. -/
def Fresh (s : Hashed D) (c : HashCall D) : Prop :=
  Free s.memory.items c.allocates

/-- What a call returns and the table it leaves. -/
def call (c : HashCall D) (s : Hashed D) : Option (HashResult D × Hashed D) :=
  allocating s.memory.items c.allocates (s.perform c)

/-- The table as a machine that emits what its calls return. -/
def machine : Machine (Hashed D) (HashCall D) (HashResult D) where
  step := fun s event => (s.call event).map fun (result, s) => ⟨s, [result]⟩

/-- The stacks that the calls of a run make. -/
def stacksAfter (trace : List (Transition (Hashed D) (HashCall D) (HashResult D))) :
    Key → List D :=
  trace.foldl (fun stack step => step.event.meaning stack) fun _ => []

/-- The stacks are computed call by call. -/
theorem stacksAfter_append_singleton
    (trace : List (Transition (Hashed D) (HashCall D) (HashResult D)))
    (step : Transition (Hashed D) (HashCall D) (HashResult D)) :
    stacksAfter (trace ++ [step]) = step.event.meaning (stacksAfter trace) := by
  rw [stacksAfter, List.foldl_append]
  rfl

/-- The data of the entries with a key, the newest first. -/
def stackOf (entries : List (ItemPtr × HashEntry D)) (key : Key) : List D :=
  (entries.filter fun e => decide (e.2.key = key)).map fun e => e.2.data

/-- The first entry with a key is the top of its stack. -/
theorem head?_stackOf (entries : List (ItemPtr × HashEntry D)) (key : Key) :
    (stackOf entries key).head? = (HashTbl.entryOf? key entries).map fun e => e.2.data := by
  rw [stackOf, List.head?_map, List.head?_filter]
  rfl

/-- A new item is on top of the stack of its key. -/
theorem stackOf_push (item : ItemPtr) (key : Key) (data : D)
    (entries : List (ItemPtr × HashEntry D)) :
    stackOf ((item, ⟨key, data⟩) :: entries) =
      Function.update (stackOf entries) key (data :: stackOf entries key) := by
  funext other
  by_cases same : other = key
  · subst same
    simp [stackOf]
  · simp [stackOf, same, Ne.symm same]

/-- Removing the first item of a key pops its stack: an earlier value for the key comes
back. -/
theorem stackOf_pop {before after : List (ItemPtr × HashEntry D)} {item : ItemPtr}
    {entry : HashEntry D} (first : ∀ e ∈ before, e.2.key ≠ entry.key) :
    stackOf (before ++ after) =
      Function.update (stackOf (before ++ (item, entry) :: after)) entry.key
        (stackOf (before ++ (item, entry) :: after) entry.key).tail := by
  funext other
  by_cases same : other = entry.key
  · subst same
    have none : before.filter (fun e => decide (e.2.key = entry.key)) = [] :=
      List.filter_eq_nil_iff.mpr fun e member => by simpa using first e member
    simp [stackOf, none]
  · simp [stackOf, same, Ne.symm same]

/-- The entries of the table are those of the stacks. -/
def Shows (s : Hashed D) (stack : Key → List D) : Prop :=
  ∃ entries, s.hash.Holds s.memory entries ∧ stack = stackOf entries

/-- A new table has empty stacks. -/
theorem shows_new {hash : HashTbl} {initSize : ℕ} (constructed : HashTbl.new initSize = some hash) :
    Shows (⟨hash, {}⟩ : Hashed D) fun _ => [] :=
  ⟨[], .of_new constructed _, rfl⟩

namespace Shows

variable {s : Hashed D} {stack : Key → List D}

/-- A lookup returns the top of the stack. -/
theorem findEntry (shows : Shows s stack) (key : Key) :
    s.findEntry key = some (stack key).head? := by
  obtain ⟨entries, holds, rfl⟩ := shows
  rw [Hashed.findEntry, holds.findEntry_eq, head?_stackOf]

/-- A new item pushes its data. -/
theorem addItem (shows : Shows s stack) {item : ItemPtr} (free : s.memory.items item = none)
    (key : Key) (data : D) :
    ∃ t m, s.hash.addItem (s.hash.unHash key) item key data s.memory = some (t, m) ∧
      Shows ⟨t, m⟩ (Function.update stack key (data :: stack key)) ∧
      t.tableSize = s.hash.tableSize := by
  obtain ⟨entries, holds, rfl⟩ := shows
  obtain ⟨t, m, added, holds', sized, -⟩ := holds.addItem free key data
  exact ⟨t, m, added, ⟨_, holds', (stackOf_push item key data entries).symm⟩, sized⟩

/-- A removal pops the stack and returns what was on top of it. -/
theorem removeEntry2 (shows : Shows s stack) (key : Key) :
    ∃ t m, s.hash.removeEntry2 key s.memory = some ((stack key).head?, t, m) ∧
      Shows ⟨t, m⟩ (Function.update stack key (stack key).tail) ∧
      t.tableSize = s.hash.tableSize := by
  obtain ⟨entries, holds, rfl⟩ := shows
  cases found : HashTbl.entryOf? key entries with
  | none =>
      have unchanged : Function.update (stackOf entries) key (stackOf entries key).tail =
          stackOf entries := by
        have empty : stackOf entries key = [] := by
          rw [← List.head?_eq_none_iff, head?_stackOf, found, Option.map_none]
        rw [empty, List.tail_nil, ← empty, Function.update_eq_self]
      refine ⟨s.hash, s.memory, ?_, ⟨entries, holds, unchanged⟩, rfl⟩
      rw [holds.removeEntry2_absent found, head?_stackOf, found, Option.map_none]
  | some e =>
      obtain ⟨same, before, after, rfl, first⟩ := List.find?_eq_some_iff_append.mp found
      obtain rfl : e.2.key = key := of_decide_eq_true same
      obtain ⟨item, entry⟩ := e
      have newer : ∀ e ∈ before, e.2.key ≠ entry.key := fun e member => by
        simpa using first e member
      obtain ⟨t, m, removed, holds', sized, -⟩ := holds.removeEntry2 newer
      refine ⟨t, m, ?_, ⟨before ++ after, holds', (stackOf_pop newer).symm⟩, sized⟩
      rw [removed, head?_stackOf, found, Option.map_some]

/-- A call on free memory returns what it returns for the stacks and does to them what it
means. -/
theorem perform_eq (shows : Shows s stack) {c : HashCall D} (fresh : s.Fresh c) :
    ∃ s', s.perform c = some (c.result stack, s') ∧ Shows s' (c.meaning stack) ∧
      s'.hash.tableSize = s.hash.tableSize := by
  cases c with
  | addEntry key data item =>
      obtain ⟨t, m, added, shows', sized⟩ := shows.addItem (fresh item rfl) key data
      exact ⟨⟨t, m⟩, by simp only [perform, HashTbl.addEntry, added, Option.map_some]; rfl, shows',
        sized⟩
  | addEntry2 key data item =>
      obtain ⟨t, m, added, shows', sized⟩ := shows.addItem (fresh item rfl) key data
      refine ⟨⟨t, m⟩, ?_, shows', sized⟩
      simp only [perform, HashTbl.addEntry2, HashTbl.unHash32_eq, added, Option.map_some]
      rfl
  | removeEntry key =>
      obtain ⟨t, m, removed, shows', sized⟩ := shows.removeEntry2 key
      exact ⟨⟨t, m⟩, by simp only [perform, HashTbl.removeEntry, removed, Option.map_some]; rfl,
        shows', sized⟩
  | removeEntry2 key =>
      obtain ⟨t, m, removed, shows', sized⟩ := shows.removeEntry2 key
      exact ⟨⟨t, m⟩, by simp only [perform, removed, Option.map_some]; rfl, shows', sized⟩
  | findEntry key =>
      exact ⟨s, by simp only [perform, shows.findEntry, Option.map_some]; rfl, shows, rfl⟩

end Shows

/-- The calls of a run show on the table what they mean for the stacks. -/
theorem shows_stacksAfter {hash : HashTbl} {initSize : ℕ}
    (constructed : HashTbl.new initSize = some hash)
    {trace : List (Transition (Hashed D) (HashCall D) (HashResult D))} {s : Hashed D}
    (run : machine.Run ⟨hash, {}⟩ trace s) :
    Shows s (stacksAfter trace) ∧ s.hash.tableSize = hash.tableSize := by
  refine run.invariant
    (fun trace s => Shows s (stacksAfter trace) ∧ s.hash.tableSize = hash.tableSize)
    ⟨shows_new constructed, rfl⟩ ?_
  rintro trace s c effect - ⟨shows, sized⟩ stepped
  obtain ⟨⟨result, s'⟩, called, rfl⟩ := Option.map_eq_some_iff.mp stepped
  have fresh : s.Fresh c := free_of_allocating called
  obtain ⟨s'', performed, shows', sized'⟩ := shows.perform_eq fresh
  rw [call, allocating_of_free fresh, performed] at called
  cases called
  rw [stacksAfter_append_singleton]
  exact ⟨shows', sized'.trans sized⟩

/-- For every requested size below `2 ^ 31` the constructor yields a table, and after every
sequence of calls on it a lookup returns the data of the newest entry with the key that was not
removed, a removal removes and returns that entry and leaves the lookups of all other keys, every
call returns what it returns for the stacks of the keys, the indices stay inside the array, and
every call is defined. -/
theorem table_is_map_of_stacks (D : Type) (initSize : ℕ) (small : initSize < 2 ^ 31) :
    ∃ hash, HashTbl.new initSize = some hash ∧
      ∀ (trace : List (Transition (Hashed D) (HashCall D) (HashResult D))) (s : Hashed D),
        machine.Run ⟨hash, {}⟩ trace s →
          (∀ key, s.findEntry key = some (stacksAfter trace key).head?) ∧
          (∀ key, ∃ s', s.call (.removeEntry2 key) =
              some (.found (stacksAfter trace key).head?, s') ∧
            s'.findEntry key = some (stacksAfter trace key).tail.head? ∧
            ∀ other, other ≠ key → s'.findEntry other = s.findEntry other) ∧
          (∀ c, s.Fresh c → ∃ s', s.call c = some (c.result (stacksAfter trace), s')) ∧
          ∀ key, s.hash.unHash key < hash.tableSize ∧ s.hash.unHash32 key < hash.tableSize := by
  obtain ⟨k, -, rounded, -⟩ := roundedSize_eq small
  obtain ⟨hash, constructed⟩ : ∃ hash, HashTbl.new initSize = some hash := by
    unfold HashTbl.new
    split
    · rename_i unrounded
      cases rounded.symm.trans unrounded
    · exact ⟨_, rfl⟩
  refine ⟨hash, constructed, fun trace s run => ?_⟩
  obtain ⟨shows, sized⟩ := shows_stacksAfter constructed run
  refine ⟨shows.findEntry, fun key => ?_, fun c fresh => ?_, fun key => ?_⟩
  · have fresh : s.Fresh (.removeEntry2 key) := fun item allocated => by cases allocated
    obtain ⟨s', performed, shows', -⟩ := shows.perform_eq fresh
    refine ⟨s', (allocating_of_free fresh _).trans performed, ?_, fun other different => ?_⟩
    · rw [shows'.findEntry, HashCall.meaning, Function.update_self]
    · rw [shows'.findEntry, shows.findEntry, HashCall.meaning, Function.update_of_ne different]
  · obtain ⟨s', performed, -⟩ := shows.perform_eq fresh
    exact ⟨s', (allocating_of_free fresh _).trans performed⟩
  · rw [s.hash.unHash32_eq, ← sized]
    exact ⟨s.hash.unHash_lt key, s.hash.unHash_lt key⟩

/-- Two keys, one of them added twice and removed once. -/
def addTwice : List (HashCall ℕ) :=
  [.addEntry [1] 10 100, .addEntry2 [2] 20 101, .addEntry2 [1] 11 102, .findEntry [1],
    .removeEntry [1], .removeEntry2 [3]]

/-- In a table of one chain all keys collide. -/
theorem table_is_map_of_stacks_addTwice :
    ∃ hash, HashTbl.new 1 = some hash ∧
      (machine.stateOf ⟨hash, {}⟩ addTwice).findEntry [1] = some (some 10) ∧
      (machine.stateOf ⟨hash, {}⟩ addTwice).findEntry [2] = some (some 20) := by
  obtain ⟨hash, constructed, shown⟩ := table_is_map_of_stacks ℕ 1 (by decide)
  obtain rfl : hash = ⟨fun _ => none, 1, 0, rfl, by decide⟩ := by
    apply Option.some.inj
    rw [← constructed]
    rfl
  refine ⟨_, constructed, ?_⟩
  have found := (shown _ _ (run_traceOf machine _ addTwice (by decide +kernel))).1
  exact ⟨(found [1]).trans (by decide +kernel), (found [2]).trans (by decide +kernel)⟩

end Hashed

end Common

end CppRaft
