import CppRaft.Machine.Trace
import CppRaft.Store.Queue

/-!
# The queue with cached entries

`FifoFast_base` links the elements from first to last and keeps entries that are not in use in an
array. Adding takes an entry from the array while there is one, extracting puts it back while the
elements fit into the array. The two tests are different, and they agree because the array holds
exactly the entries that the elements leave free.
-/

namespace CppRaft

namespace Common

open Machine Store

/-- `FifoFast_base` and the memory of its entries. The array has `cashSize` elements, some of
which may be unset. -/
structure FifoFast (P α : Type) where
  maxSize : Int
  cashSize : Int
  indexInCashPlus1 : Int
  numOfElemets : Int := 0
  first : Option P := none
  last : Option P := none
  cashedEntries : ℕ → Option P := fun _ => none
  entries : Entries P α := fun _ => none

/-- A call, with the entry that it allocates if the array is empty. -/
inductive FifoCall (P α : Type) where
  | addElement1 (new : α) (entry : P)
  | addElement2 (new : α) (entry : P)
  | extract
  | extractMv
  deriving DecidableEq, Repr

/-- What a call returns: whether the element was added, or the element that was extracted. -/
inductive FifoResult (α : Type) where
  | added (value : Bool)
  | extracted (element : Option α)
  deriving DecidableEq, Repr

namespace FifoCall

variable {P α : Type}

/-- What a call does to a queue of at most `maxSize` elements. -/
def meaning (maxSize : Int) : FifoCall P α → List α → List α
  | addElement1 new _, queue => if queue.length < maxSize then queue ++ [new] else queue
  | addElement2 new _, queue => if queue.length < maxSize then queue ++ [new] else queue
  | extract, queue => queue.tail
  | extractMv, queue => queue.tail

/-- What a call returns for such a queue. -/
def result (maxSize : Int) : FifoCall P α → List α → FifoResult α
  | addElement1 _ _, queue => .added (decide (queue.length < maxSize))
  | addElement2 _ _, queue => .added (decide (queue.length < maxSize))
  | extract, queue => .extracted queue.head?
  | extractMv, queue => .extracted queue.head?

/-- The entry that a call may allocate. -/
def allocates : FifoCall P α → Option P
  | addElement1 _ entry => some entry
  | addElement2 _ entry => some entry
  | _ => none

end FifoCall

namespace FifoFast

variable {P α : Type}

section Operations

variable [DecidableEq P]

/-- `m_ppCashedEntries[i]`, read. -/
def cashed (s : FifoFast P α) (i : Int) : Option P :=
  if 0 ≤ i ∧ i < s.cashSize then s.cashedEntries i.toNat else none

/-- `m_ppCashedEntries[i]`, assigned. -/
def setCashed (s : FifoFast P α) (i : Int) (p : P) : Option (FifoFast P α) :=
  if 0 ≤ i ∧ i < s.cashSize then
    some { s with cashedEntries := Function.update s.cashedEntries i.toNat (some p) }
  else none

/-- The loop of the constructor, with the entries that it allocates. -/
def fillCash (unset : α) : (left : ℕ) → (i : Int) → List P → FifoFast P α → Option (FifoFast P α)
  | 0, _, _, s => some s
  | left + 1, i, supply, s => do
      let p ← supply.head?
      let entries ← s.entries.alloc p ⟨none, unset⟩
      let s ← { s with entries := entries }.setCashed i p
      fillCash unset left (i + 1) supply.tail s

/-- The constructor; `unset` is the value of an entry that was given none. -/
def new (unset : α) (maxSize cashSize : Int) (supply : List P) : Option (FifoFast P α) :=
  fillCash unset cashSize.toNat 0 supply
    { maxSize := maxSize, cashSize := cashSize, indexInCashPlus1 := cashSize }

/-- `m_ppCashedEntries[--m_nIndexInCashPlus1]`. -/
def takeCashed (s : FifoFast P α) : Option (P × FifoFast P α) := do
  let p ← s.cashed (s.indexInCashPlus1 - 1)
  pure (p, { s with indexInCashPlus1 := s.indexInCashPlus1 - 1 })

/-- A new entry becomes the last one. -/
def link (p : P) (s : FifoFast P α) : Option (FifoFast P α) :=
  if s.numOfElemets = 0 then
    some { s with first := some p, last := some p, numOfElemets := s.numOfElemets + 1 }
  else do
    let entries ← s.entries.assignNext s.last (some p)
    pure { s with entries := entries, last := some p, numOfElemets := s.numOfElemets + 1 }

/-- `new` of an entry with a value. -/
def newEntry (entry : P) (value : α) (s : FifoFast P α) : Option (P × FifoFast P α) := do
  let entries ← s.entries.alloc entry ⟨none, value⟩
  pure (entry, { s with entries := entries })

/-- `pNewEntr->value = ...`. -/
def assignValue (value : α) (p : P) (s : FifoFast P α) : Option (P × FifoFast P α) := do
  let entries ← s.entries.write p fun cell => { cell with value := value }
  pure (p, { s with entries := entries })

/-- The entry for a new element in `AddElement1`: its value is assigned in either case. -/
def entry1 (unset new : α) (entry : P) (s : FifoFast P α) : Option (P × FifoFast P α) :=
  (if s.indexInCashPlus1 ≠ 0 then s.takeCashed else s.newEntry entry unset).bind fun (p, s) =>
    s.assignValue new p

/-- The entry for a new element in `AddElement2`: a new one is constructed from the value. -/
def entry2 (new : α) (entry : P) (s : FifoFast P α) : Option (P × FifoFast P α) :=
  if s.indexInCashPlus1 ≠ 0 then s.takeCashed.bind fun (p, s) => s.assignValue new p
  else s.newEntry entry new

/-- Adding an element with the entry obtained for it. -/
def addElement (entryFor : FifoFast P α → Option (P × FifoFast P α)) (s : FifoFast P α) :
    Option (Bool × FifoFast P α) :=
  if s.numOfElemets < s.maxSize then do
    let (p, s) ← entryFor s
    let entries ← s.entries.write p fun cell => { cell with next := none }
    let s ← link p { s with entries := entries }
    pure (true, s)
  else some (false, s)

/-- `AddElement1`. -/
def addElement1 (unset new : α) (entry : P) : FifoFast P α → Option (Bool × FifoFast P α) :=
  addElement (entry1 unset new entry)

/-- `AddElement2`. -/
def addElement2 (new : α) (entry : P) : FifoFast P α → Option (Bool × FifoFast P α) :=
  addElement (entry2 new entry)

/-- Extracting the first element; `leave` is what reading the value leaves of it. -/
def takeFirst (leave : α → α) (s : FifoFast P α) : Option (Option α × FifoFast P α) :=
  if s.numOfElemets ≠ 0 then do
    let p ← s.first
    let cell ← s.entries p
    let s := { s with
      entries := Function.update s.entries p (some { cell with value := leave cell.value }) }
    if s.numOfElemets ≤ s.cashSize then
      let s ← s.setCashed s.indexInCashPlus1 p
      pure (some cell.value, { s with
        indexInCashPlus1 := s.indexInCashPlus1 + 1
        first := cell.next
        numOfElemets := s.numOfElemets - 1 })
    else
      pure (some cell.value, { s with
        first := cell.next
        entries := Function.update s.entries p none
        numOfElemets := s.numOfElemets - 1 })
  else some (none, s)

/-- `Extract`. -/
def extract : FifoFast P α → Option (Option α × FifoFast P α) :=
  takeFirst id

/-- `ExtractMv`; `movedFrom` is what `std::move` leaves of a value. -/
def extractMv (movedFrom : α → α) : FifoFast P α → Option (Option α × FifoFast P α) :=
  takeFirst movedFrom

/-- The effect of a call whose entry is free. -/
def perform (unset : α) (movedFrom : α → α) (s : FifoFast P α) :
    FifoCall P α → Option (FifoResult α × FifoFast P α)
  | .addElement1 new entry => (s.addElement1 unset new entry).map fun (b, s) => (.added b, s)
  | .addElement2 new entry => (s.addElement2 new entry).map fun (b, s) => (.added b, s)
  | .extract => s.extract.map fun (element, s) => (.extracted element, s)
  | .extractMv => (s.extractMv movedFrom).map fun (element, s) => (.extracted element, s)

/-- What a call returns and the queue it leaves. -/
def call (unset : α) (movedFrom : α → α) (s : FifoFast P α) (c : FifoCall P α) :
    Option (FifoResult α × FifoFast P α) :=
  allocating s.entries c.allocates (s.perform unset movedFrom c)

/-- The queue as a machine that emits what its calls return. -/
def machine (unset : α) (movedFrom : α → α) :
    Machine (FifoFast P α) (FifoCall P α) (FifoResult α) where
  step := fun s event => (s.call unset movedFrom event).map fun (result, s) => ⟨s, [result]⟩

end Operations

/-- The entries that the array offers. -/
def cachedNow (s : FifoFast P α) : List (Option P) :=
  (List.range s.indexInCashPlus1.toNat).map s.cashedEntries

/-- The entries from `m_pFirst` along the links. -/
def queuedNow (s : FifoFast P α) : Option (List P) :=
  s.entries.walk s.numOfElemets.toNat s.first

/-- The memory that a call may allocate is not in use. -/
def Fresh (s : FifoFast P α) (c : FifoCall P α) : Prop :=
  Free s.entries c.allocates

/-- The elements are queued in this order and the array offers these entries. -/
structure Keeps (maxSize cashSize : Int) (s : FifoFast P α) (queue : List (P × α))
    (cached : List P) : Prop where
  bounded : s.maxSize = maxSize
  sized : s.cashSize = cashSize
  distinct : (queue.map Prod.fst ++ cached).Nodup
  queued : s.entries.Queued queue
  allocated : ∀ p ∈ cached, s.entries p ≠ none
  first : s.first = queue.head?.map Prod.fst
  last : queue ≠ [] → s.last = queue.getLast?.map Prod.fst
  count : s.numOfElemets = queue.length
  index : s.indexInCashPlus1 = cached.length
  cash : ∀ i < cached.length, s.cashedEntries i = cached[i]?

namespace Keeps

variable {maxSize cashSize : Int} {s : FifoFast P α} {queue : List (P × α)} {cached : List P}

/-- Every entry that is queued or cached is allocated. -/
theorem notMem (keeps : Keeps maxSize cashSize s queue cached) {p : P}
    (free : s.entries p = none) : p ∉ queue.map Prod.fst ++ cached := by
  intro member
  rcases List.mem_append.mp member with queued | offered
  · obtain ⟨e, listed, rfl⟩ := List.mem_map.mp queued
    obtain ⟨next, read⟩ := keeps.queued.entry listed
    cases read.symm.trans free
  · exact keeps.allocated p offered free

/-- The array is large enough for the entries it offers. -/
theorem fits (keeps : Keeps maxSize cashSize s queue cached) (sized : 0 ≤ cashSize)
    (balanced : s.indexInCashPlus1 = max 0 (cashSize - s.numOfElemets)) :
    (cached.length : Int) ≤ cashSize := by
  have counted := keeps.count
  have index := keeps.index
  omega

/-- The array gives away its last entry. -/
theorem takeCashed {p : P} (keeps : Keeps maxSize cashSize s queue (cached ++ [p]))
    (fits : (cached ++ [p]).length ≤ cashSize) :
    s.takeCashed = some (p, { s with indexInCashPlus1 := cached.length }) ∧
      Keeps maxSize cashSize { s with indexInCashPlus1 := cached.length } queue cached ∧
      p ∉ queue.map Prod.fst ++ cached ∧ s.entries p ≠ none := by
  have index := keeps.index
  rw [List.length_append, List.length_singleton] at index fits
  have position : s.indexInCashPlus1 - 1 = cached.length := by omega
  have distinct := keeps.distinct
  rw [← List.append_assoc, List.nodup_append_comm] at distinct
  refine ⟨?_, ⟨keeps.bounded, keeps.sized, ?_, keeps.queued, ?_, keeps.first, keeps.last,
    keeps.count, rfl, ?_⟩, ?_, ?_⟩
  · have inside : 0 ≤ (cached.length : Int) ∧ (cached.length : Int) < s.cashSize := by
      rw [keeps.sized]
      omega
    have here : s.cashedEntries cached.length = some p := by
      rw [keeps.cash _ (by rw [List.length_append]; exact Nat.lt_succ_self _),
        List.getElem?_concat_length]
    simp only [FifoFast.takeCashed, cashed, position, if_pos inside, Int.toNat_natCast, here,
      Option.bind_eq_bind, Option.bind_some, Option.pure_def]
  · exact (List.nodup_cons.mp distinct).2
  · exact fun q offered => keeps.allocated q (List.mem_append_left _ offered)
  · intro i inside
    rw [← List.getElem?_append_left inside]
    exact keeps.cash i (by rw [List.length_append]; exact Nat.lt_succ_of_lt inside)
  · exact (List.nodup_cons.mp distinct).1
  · exact keeps.allocated p (List.mem_append_right _ (List.mem_singleton_self p))

/-- The first element leaves the queue. -/
theorem dropFirst {p : P} {value : α}
    (keeps : Keeps maxSize cashSize s ((p, value) :: queue) cached) :
    Keeps maxSize cashSize
        { s with first := queue.head?.map Prod.fst, numOfElemets := s.numOfElemets - 1 }
        queue cached ∧
      p ∉ queue.map Prod.fst ++ cached := by
  have distinct := keeps.distinct
  rw [List.map_cons, List.cons_append, List.nodup_cons] at distinct
  refine ⟨{ keeps with
    distinct := distinct.2, queued := keeps.queued.2, first := rfl, last := fun nonempty => ?_,
    count := ?_ }, distinct.1⟩
  · obtain ⟨e, rest, rfl⟩ := List.exists_cons_of_ne_nil nonempty
    exact keeps.last (List.cons_ne_nil _ _)
  · show s.numOfElemets - 1 = queue.length
    rw [keeps.count, List.length_cons, Int.natCast_succ, Int.add_sub_cancel]

/-- The array takes an entry back. -/
theorem putCashed (keeps : Keeps maxSize cashSize s queue cached) {p : P}
    (outside : p ∉ queue.map Prod.fst ++ cached) (allocated : s.entries p ≠ none) :
    Keeps maxSize cashSize
      { s with
        cashedEntries := Function.update s.cashedEntries s.indexInCashPlus1.toNat (some p)
        indexInCashPlus1 := s.indexInCashPlus1 + 1 }
      queue (cached ++ [p]) := by
  have position : s.indexInCashPlus1.toNat = cached.length := by
    rw [keeps.index, Int.toNat_natCast]
  refine { keeps with distinct := ?_, allocated := fun q offered => ?_, index := ?_, cash := ?_ }
  · rw [← List.append_assoc, List.nodup_append_comm]
    exact List.nodup_cons.mpr ⟨outside, keeps.distinct⟩
  · rcases List.mem_append.mp offered with old | new
    · exact keeps.allocated q old
    · rw [List.mem_singleton.mp new]
      exact allocated
  · show s.indexInCashPlus1 + 1 = (cached ++ [p]).length
    rw [keeps.index, List.length_append]
    rfl
  · intro i inside
    rw [List.length_append, List.length_singleton, Nat.lt_succ_iff_lt_or_eq] at inside
    show Function.update s.cashedEntries s.indexInCashPlus1.toNat (some p) i = _
    rcases inside with before | rfl
    · rw [position, Function.update_of_ne (Nat.ne_of_lt before), keeps.cash i before,
        List.getElem?_append_left before]
    · rw [position, Function.update_self, List.getElem?_concat_length]

variable [DecidableEq P]

/-- A write to an entry that is neither queued nor cached. -/
theorem update (keeps : Keeps maxSize cashSize s queue cached) {p : P}
    (outside : p ∉ queue.map Prod.fst ++ cached) (cell : Option (Entry P α)) :
    Keeps maxSize cashSize { s with entries := Function.update s.entries p cell } queue cached := by
  have same {q : P} (member : q ∈ queue.map Prod.fst ++ cached) :
      Function.update s.entries p cell q = s.entries q := by
    refine Function.update_of_ne ?_ _ _
    rintro rfl
    exact outside member
  refine { keeps with queued := keeps.queued.congr fun q queued => ?_, allocated := ?_ }
  · exact same (List.mem_append_left _ queued)
  · intro q offered
    exact (same (List.mem_append_right _ offered)).trans_ne (keeps.allocated q offered)

/-- A new entry becomes the last one. -/
theorem link {p : P} {value : α} (keeps : Keeps maxSize cashSize s queue cached)
    (outside : p ∉ queue.map Prod.fst ++ cached) (here : s.entries p = some ⟨none, value⟩) :
    ∃ s', s.link p = some s' ∧ Keeps maxSize cashSize s' (queue ++ [(p, value)]) cached := by
  have count := keeps.count
  have distinct : ((queue ++ [(p, value)]).map Prod.fst ++ cached).Nodup := by
    rw [List.map_append, List.map_singleton, List.append_assoc, List.singleton_append,
      List.nodup_middle]
    exact List.nodup_cons.mpr ⟨outside, keeps.distinct⟩
  cases queue with
  | nil =>
      refine ⟨_, if_pos count, ⟨keeps.bounded, keeps.sized, distinct, ⟨here, trivial⟩,
        keeps.allocated, rfl, fun _ => rfl, ?_, keeps.index, keeps.cash⟩⟩
      rw [count]
      rfl
  | cons e rest =>
      have nonempty := List.cons_ne_nil e rest
      have nonzero : s.numOfElemets ≠ 0 := by
        rw [count, List.length_cons]
        omega
      have apart : ((e :: rest).map Prod.fst ++ [p]).Nodup := by
        rw [List.nodup_append_comm]
        exact List.nodup_cons.mpr ⟨fun queued => outside (List.mem_append_left _ queued),
          (List.nodup_append.mp keeps.distinct).1⟩
      obtain ⟨entries, assigned, queued, elsewhere⟩ := keeps.queued.enqueue nonempty here apart
      refine ⟨{ s with entries := entries, last := some p, numOfElemets := s.numOfElemets + 1 }, ?_,
        ⟨keeps.bounded, keeps.sized, distinct, queued, ?_, ?_, ?_, ?_, keeps.index, keeps.cash⟩⟩
      · rw [FifoFast.link, if_neg nonzero, keeps.last nonempty, assigned]
        rfl
      · intro q offered
        have notQueued : q ∉ (e :: rest).map Prod.fst := fun member =>
          List.disjoint_of_nodup_append keeps.distinct member offered
        exact (elsewhere q notQueued).trans_ne (keeps.allocated q offered)
      · exact keeps.first
      · intro _
        rw [List.getLast?_concat]
        rfl
      · rw [List.length_append, Int.natCast_add, ← count]
        rfl

end Keeps

/-- The elements are queued in this order, and the array offers the entries they leave free. -/
def Holds (maxSize cashSize : Int) (s : FifoFast P α) (queue : List (P × α)) : Prop :=
  ∃ cached, Keeps maxSize cashSize s queue cached ∧
    s.indexInCashPlus1 = max 0 (cashSize - s.numOfElemets)

/-- An entry that is not queued is at hand for one more element with this value. -/
def Ready (maxSize cashSize : Int) (s : FifoFast P α) (queue : List (P × α)) (p : P)
    (value : α) : Prop :=
  ∃ cached next, Keeps maxSize cashSize s queue cached ∧ p ∉ queue.map Prod.fst ++ cached ∧
    s.entries p = some ⟨next, value⟩ ∧
    s.indexInCashPlus1 = max 0 (cashSize - (s.numOfElemets + 1))

section Steps

variable {maxSize cashSize : Int} {s : FifoFast P α} {queue : List (P × α)}

/-- An entry from the array. -/
theorem Holds.takeCashed (holds : Holds maxSize cashSize s queue) (sized : 0 ≤ cashSize)
    (offered : s.indexInCashPlus1 ≠ 0) :
    ∃ p s' value, s.takeCashed = some (p, s') ∧ Ready maxSize cashSize s' queue p value := by
  obtain ⟨cached, keeps, balanced⟩ := holds
  have index := keeps.index
  rcases List.eq_nil_or_concat cached with rfl | ⟨front, p, rfl⟩
  · exact absurd index offered
  · rw [List.concat_eq_append] at keeps index
    obtain ⟨taken, keeps', outside, allocated⟩ :=
      keeps.takeCashed (keeps.fits sized balanced)
    obtain ⟨⟨next, value⟩, read⟩ := Option.ne_none_iff_exists'.mp allocated
    refine ⟨p, _, value, taken, front, next, keeps', outside, read, ?_⟩
    show (front.length : Int) = max 0 (cashSize - (s.numOfElemets + 1))
    rw [List.length_append, List.length_singleton] at index
    omega

variable [DecidableEq P]

/-- A new entry. -/
theorem Holds.newEntry (holds : Holds maxSize cashSize s queue) (empty : s.indexInCashPlus1 = 0)
    {entry : P} (free : s.entries entry = none) (value : α) :
    ∃ s', s.newEntry entry value = some (entry, s') ∧
      Ready maxSize cashSize s' queue entry value := by
  obtain ⟨cached, keeps, balanced⟩ := holds
  have outside := keeps.notMem free
  refine ⟨{ s with entries := Function.update s.entries entry (some ⟨none, value⟩) }, ?_, cached,
    none, keeps.update outside _, outside, Function.update_self .., ?_⟩
  · simp only [FifoFast.newEntry, Entries.alloc, free, Option.isSome_none, Bool.false_eq_true,
      if_false, Option.bind_eq_bind, Option.bind_some, Option.pure_def]
  · show s.indexInCashPlus1 = max 0 (cashSize - (s.numOfElemets + 1))
    omega

/-- Assigning the value makes the entry ready to be linked. -/
theorem Ready.assignValue {p : P} {old : α} (ready : Ready maxSize cashSize s queue p old)
    (value : α) :
    ∃ s', s.assignValue value p = some (p, s') ∧ Ready maxSize cashSize s' queue p value := by
  obtain ⟨cached, next, keeps, outside, read, balanced⟩ := ready
  refine ⟨{ s with entries := Function.update s.entries p (some ⟨next, value⟩) }, ?_, cached, next,
    keeps.update outside _, outside, Function.update_self .., balanced⟩
  simp only [FifoFast.assignValue, Entries.write, read, Option.bind_eq_bind, Option.bind_some,
    Option.pure_def]

/-- Either way to an entry for a new element yields one with its value. -/
theorem Holds.entry1 (holds : Holds maxSize cashSize s queue) (sized : 0 ≤ cashSize) {entry : P}
    (free : s.entries entry = none) (unset new : α) :
    ∃ p s', s.entry1 unset new entry = some (p, s') ∧ Ready maxSize cashSize s' queue p new := by
  by_cases empty : s.indexInCashPlus1 = 0
  · obtain ⟨s₁, allocated, ready⟩ := holds.newEntry empty free unset
    obtain ⟨s₂, assigned, ready⟩ := ready.assignValue new
    refine ⟨entry, s₂, ?_, ready⟩
    rw [FifoFast.entry1, if_neg (not_not.mpr empty), allocated]
    exact assigned
  · obtain ⟨p, s₁, old, taken, ready⟩ := holds.takeCashed sized empty
    obtain ⟨s₂, assigned, ready⟩ := ready.assignValue new
    refine ⟨p, s₂, ?_, ready⟩
    rw [FifoFast.entry1, if_pos empty, taken]
    exact assigned

/-- `AddElement2` gets an entry from the cache or allocates one. -/
theorem Holds.entry2 (holds : Holds maxSize cashSize s queue) (sized : 0 ≤ cashSize) {entry : P}
    (free : s.entries entry = none) (new : α) :
    ∃ p s', s.entry2 new entry = some (p, s') ∧ Ready maxSize cashSize s' queue p new := by
  by_cases empty : s.indexInCashPlus1 = 0
  · obtain ⟨s', allocated, ready⟩ := holds.newEntry empty free new
    refine ⟨entry, s', ?_, ready⟩
    rw [FifoFast.entry2, if_neg (not_not.mpr empty), allocated]
  · obtain ⟨p, s₁, old, taken, ready⟩ := holds.takeCashed sized empty
    obtain ⟨s₂, assigned, ready⟩ := ready.assignValue new
    refine ⟨p, s₂, ?_, ready⟩
    rw [FifoFast.entry2, if_pos empty, taken]
    exact assigned

/-- An element is added if the queue is not full. -/
theorem Holds.addElement (holds : Holds maxSize cashSize s queue) {new : α}
    {entryFor : FifoFast P α → Option (P × FifoFast P α)}
    (obtained : ∃ p s', entryFor s = some (p, s') ∧ Ready maxSize cashSize s' queue p new) :
    ∃ s' queue', s.addElement entryFor = some (decide (queue.length < maxSize), s') ∧
      Holds maxSize cashSize s' queue' ∧
      queue'.map Prod.snd =
        if queue.length < maxSize then queue.map Prod.snd ++ [new] else queue.map Prod.snd := by
  obtain ⟨count, bounded⟩ : s.numOfElemets = queue.length ∧ s.maxSize = maxSize := by
    obtain ⟨cached, keeps, -⟩ := holds
    exact ⟨keeps.count, keeps.bounded⟩
  by_cases room : queue.length < maxSize
  · obtain ⟨p, s₁, obtained, cached, next, keeps, outside, read, balanced⟩ := obtained
    let s₂ : FifoFast P α :=
      { s₁ with entries := Function.update s₁.entries p (some ⟨none, new⟩) }
    have keeps₂ : Keeps maxSize cashSize s₂ queue cached := keeps.update outside _
    obtain ⟨s₃, linked, keeps₃⟩ := keeps₂.link outside (Function.update_self ..)
    refine ⟨s₃, queue ++ [(p, new)], ?_, ⟨cached, keeps₃, ?_⟩, ?_⟩
    · have written : s₁.entries.write p (fun cell => { cell with next := none }) =
          some s₂.entries := by
        simp only [Entries.write, read, Option.bind_eq_bind, Option.bind_some, Option.pure_def,
          s₂]
      rw [FifoFast.addElement, count, bounded, if_pos room, obtained, decide_eq_true room]
      simp only [Option.bind_eq_bind, Option.bind_some, written]
      rw [show FifoFast.link p { s₁ with entries := s₂.entries } = some s₃ from linked]
      rfl
    · rw [keeps₃.index, keeps₃.count, List.length_append, Int.natCast_add, ← keeps.count,
        ← keeps.index]
      exact balanced
    · rw [if_pos room, List.map_append, List.map_singleton]
  · refine ⟨s, queue, ?_, holds, (if_neg room).symm⟩
    rw [FifoFast.addElement, count, bounded, if_neg room, decide_eq_false room]

/-- The first element is extracted, and its entry goes to the array if it fits there. -/
theorem Holds.takeFirst (holds : Holds maxSize cashSize s queue) (leave : α → α) :
    ∃ s', s.takeFirst leave = some ((queue.map Prod.snd).head?, s') ∧
      Holds maxSize cashSize s' queue.tail := by
  obtain ⟨cached, keeps, balanced⟩ := id holds
  have count := keeps.count
  cases queue with
  | nil =>
      have zero : ¬ s.numOfElemets ≠ 0 := not_not.mpr count
      exact ⟨s, if_neg zero, holds⟩
  | cons e rest =>
      obtain ⟨p, value⟩ := e
      have nonzero : s.numOfElemets ≠ 0 := by
        rw [count, List.length_cons]
        omega
      have read : s.entries p = some ⟨rest.head?.map Prod.fst, value⟩ := keeps.queued.1
      obtain ⟨dropped, outside⟩ := keeps.dropFirst
      have left := dropped.update outside (some ⟨rest.head?.map Prod.fst, leave value⟩)
      rw [FifoFast.takeFirst, if_pos nonzero, keeps.first]
      simp only [List.head?_cons, Option.map_some, read, Option.bind_eq_bind, Option.bind_some,
        List.map_cons, List.tail_cons]
      rw [List.length_cons] at count
      have index := keeps.index
      by_cases fits : s.numOfElemets ≤ s.cashSize
      · have inside : 0 ≤ s.indexInCashPlus1 ∧ s.indexInCashPlus1 < s.cashSize := by
          rw [keeps.sized] at fits ⊢
          omega
        have back := left.putCashed outside
          ((Function.update_self ..).trans_ne (Option.some_ne_none _))
        rw [if_pos fits, setCashed, if_pos inside]
        refine ⟨_, rfl, cached ++ [p], back, ?_⟩
        show s.indexInCashPlus1 + 1 = max 0 (cashSize - (s.numOfElemets - 1))
        rw [keeps.sized] at fits
        omega
      · rw [if_neg fits]
        refine ⟨_, rfl, cached, left.update outside none, ?_⟩
        show s.indexInCashPlus1 = max 0 (cashSize - (s.numOfElemets - 1))
        rw [keeps.sized] at fits
        omega

/-- Every call on free memory does to the elements what it means for a bounded queue. -/
theorem Holds.perform (holds : Holds maxSize cashSize s queue) (sized : 0 ≤ cashSize)
    (unset : α) (movedFrom : α → α) {c : FifoCall P α} (fresh : s.Fresh c) :
    ∃ s' queue', s.perform unset movedFrom c = some (c.result maxSize (queue.map Prod.snd), s') ∧
      Holds maxSize cashSize s' queue' ∧
      queue'.map Prod.snd = c.meaning maxSize (queue.map Prod.snd) := by
  cases c with
  | addElement1 new entry =>
      obtain ⟨s', queue', added, holds', elements⟩ :=
        holds.addElement (holds.entry1 sized (fresh entry rfl) unset new)
      refine ⟨s', queue', ?_, holds', ?_⟩
      · simp only [FifoFast.perform, addElement1, added, Option.map_some, FifoCall.result,
          List.length_map]
      · rw [elements, FifoCall.meaning, List.length_map]
  | addElement2 new entry =>
      obtain ⟨s', queue', added, holds', elements⟩ :=
        holds.addElement (holds.entry2 sized (fresh entry rfl) new)
      refine ⟨s', queue', ?_, holds', ?_⟩
      · simp only [FifoFast.perform, addElement2, added, Option.map_some, FifoCall.result,
          List.length_map]
      · rw [elements, FifoCall.meaning, List.length_map]
  | extract =>
      obtain ⟨s', taken, holds'⟩ := holds.takeFirst id
      refine ⟨s', queue.tail, ?_, holds', List.map_tail⟩
      simp only [FifoFast.perform, extract, taken, Option.map_some, FifoCall.result]
  | extractMv =>
      obtain ⟨s', taken, holds'⟩ := holds.takeFirst movedFrom
      refine ⟨s', queue.tail, ?_, holds', List.map_tail⟩
      simp only [FifoFast.perform, extractMv, taken, Option.map_some, FifoCall.result]

end Steps

section Construction

variable [DecidableEq P]

/-- One pass of the loop of the constructor. -/
theorem fillCash_succ (unset : α) {left i : ℕ} {p : P} {rest : List P} {s : FifoFast P α}
    (inside : i < s.cashSize) (free : s.entries p = none) :
    fillCash unset (left + 1) i (p :: rest) s =
      fillCash unset left (i + 1 : ℕ) rest { s with
        entries := Function.update s.entries p (some ⟨none, unset⟩)
        cashedEntries := Function.update s.cashedEntries i (some p) } := by
  have valid : 0 ≤ (i : Int) ∧ (i : Int) < s.cashSize := ⟨Int.natCast_nonneg i, inside⟩
  simp only [fillCash, List.head?_cons, Entries.alloc, free, Option.isSome_none,
    Bool.false_eq_true, if_false, setCashed, if_pos valid, Int.toNat_natCast, Option.bind_eq_bind,
    Option.bind_some, List.tail_cons]
  rfl

/-- The loop of the constructor fills the array from position `i` on. -/
theorem fillCash_eq (unset : α) {left i : ℕ} {supply : List P} {s : FifoFast P α}
    (enough : left ≤ supply.length) (room : i + left ≤ s.cashSize) (distinct : supply.Nodup)
    (free : ∀ p ∈ supply, s.entries p = none) :
    ∃ cashedEntries entries, fillCash unset left i supply s =
        some { s with cashedEntries := cashedEntries, entries := entries } ∧
      (∀ j < i, cashedEntries j = s.cashedEntries j) ∧
      (∀ j < left, cashedEntries (i + j) = supply[j]?) ∧
      (∀ p ∈ supply.take left, entries p ≠ none) ∧
      ∀ p, s.entries p ≠ none → entries p ≠ none := by
  induction left generalizing i supply s with
  | zero =>
      refine ⟨s.cashedEntries, s.entries, rfl, fun _ _ => rfl, fun j before => ?_, ?_,
        fun _ allocated => allocated⟩
      · cases before
      · rintro p ⟨⟩
  | succ left ih =>
      obtain ⟨p, rest, rfl⟩ :=
        List.exists_cons_of_length_pos (Nat.lt_of_lt_of_le (Nat.succ_pos left) enough)
      have outside := List.nodup_cons.mp distinct
      let s₁ : FifoFast P α := { s with
        entries := Function.update s.entries p (some ⟨none, unset⟩)
        cashedEntries := Function.update s.cashedEntries i (some p) }
      have elsewhere {q : P} (other : q ≠ p) : s₁.entries q = s.entries q :=
        Function.update_of_ne other _ _
      have here : s₁.entries p ≠ none :=
        (Function.update_self ..).trans_ne (Option.some_ne_none _)
      have freeLeft (q : P) (member : q ∈ rest) : s₁.entries q = none := by
        rw [elsewhere fun same => outside.1 (same ▸ member)]
        exact free q (List.mem_cons_of_mem p member)
      have roomLeft : ((i + 1 : ℕ) : Int) + left ≤ s₁.cashSize := by
        show ((i + 1 : ℕ) : Int) + left ≤ s.cashSize
        omega
      obtain ⟨cashedEntries, entries, filled, before, after, allocated, kept⟩ :=
        ih (i := i + 1) (s := s₁) (Nat.le_of_succ_le_succ enough) roomLeft outside.2 freeLeft
      refine ⟨cashedEntries, entries, ?_, fun j earlier => ?_, fun j early => ?_, ?_, ?_⟩
      · rw [fillCash_succ unset (by omega) (free p List.mem_cons_self)]
        exact filled
      · rw [before j (Nat.lt_succ_of_lt earlier)]
        exact Function.update_of_ne (Nat.ne_of_lt earlier) _ _
      · cases j with
        | zero =>
            rw [Nat.add_zero, before i (Nat.lt_succ_self i)]
            exact Function.update_self ..
        | succ j =>
            rw [← Nat.succ_add_eq_add_succ, after j (Nat.lt_of_succ_lt_succ early),
              List.getElem?_cons_succ]
      · intro q member
        rw [List.take_succ_cons, List.mem_cons] at member
        rcases member with rfl | member
        · exact kept q here
        · exact allocated q member
      · intro q old
        apply kept
        by_cases same : q = p
        · rw [same]
          exact here
        · rw [elsewhere same]
          exact old

/-- The constructed queue. -/
theorem holds_new (unset : α) (maxSize : Int) {cashSize : Int} (sized : 0 ≤ cashSize)
    {supply : List P} (enough : cashSize ≤ supply.length) (distinct : supply.Nodup) :
    ∃ s, new unset maxSize cashSize supply = some s ∧ Holds maxSize cashSize s [] := by
  obtain ⟨size, rfl⟩ := Int.eq_ofNat_of_zero_le sized
  have enough : size ≤ supply.length := Int.ofNat_le.mp enough
  obtain ⟨cashedEntries, entries, filled, -, cashed, allocated, -⟩ :=
    fillCash_eq unset (i := 0) (s := ⟨maxSize, size, size, 0, none, none, fun _ => none,
      fun _ => none⟩) enough (Int.le_of_eq (Int.zero_add _)) distinct fun _ _ => rfl
  have length : (supply.take size).length = size := List.length_take_of_le enough
  refine ⟨_, filled, supply.take size, ⟨rfl, rfl, ?_, trivial, allocated, rfl, ?_, rfl, ?_, ?_⟩, ?_⟩
  · exact distinct.sublist (List.take_sublist size supply)
  · exact fun nonempty => absurd rfl nonempty
  · rw [length]
  · intro i inside
    rw [length] at inside
    rw [List.getElem?_take_of_lt inside, ← cashed i inside, Nat.zero_add]
  · show (size : Int) = max 0 (size - 0)
    omega

end Construction

/-- The elements of a bounded queue after a sequence of calls. -/
def queueAfter (maxSize : Int) (calls : List (FifoCall P α)) : List α :=
  calls.foldl (fun queue c => c.meaning maxSize queue) []

/-- What a sequence of calls returns for a bounded queue. -/
def resultsFrom (maxSize : Int) : (queue : List α) → List (FifoCall P α) → List (FifoResult α)
  | _, [] => []
  | queue, c :: calls =>
      c.result maxSize queue :: resultsFrom maxSize (c.meaning maxSize queue) calls

/-- Results are computed call by call. -/
theorem resultsFrom_append_singleton (maxSize : Int) (queue : List α)
    (calls : List (FifoCall P α)) (c : FifoCall P α) :
    resultsFrom maxSize queue (calls ++ [c]) = resultsFrom maxSize queue calls ++
      [c.result maxSize (calls.foldl (fun queue c => c.meaning maxSize queue) queue)] := by
  induction calls generalizing queue with
  | nil => rfl
  | cons c' calls ih =>
      rw [List.cons_append, resultsFrom, resultsFrom, ih]
      rfl

section Runs

variable [DecidableEq P] {unset : α} {movedFrom : α → α} {maxSize cashSize : Int}

/-- The calls of a run leave the elements of a bounded queue and return what they return for
it. -/
theorem run_holds (sized : 0 ≤ cashSize) {s₀ s : FifoFast P α}
    (constructed : Holds maxSize cashSize s₀ [])
    {trace : List (Transition (FifoFast P α) (FifoCall P α) (FifoResult α))}
    (run : (machine unset movedFrom).Run s₀ trace s) :
    (∃ queue, Holds maxSize cashSize s queue ∧
      queue.map Prod.snd = queueAfter maxSize (trace.map Transition.event)) ∧
    emissions trace = resultsFrom maxSize [] (trace.map Transition.event) := by
  refine run.invariant (fun trace s => (∃ queue, Holds maxSize cashSize s queue ∧
      queue.map Prod.snd = queueAfter maxSize (trace.map Transition.event)) ∧
    emissions trace = resultsFrom maxSize [] (trace.map Transition.event))
    ⟨⟨[], constructed, rfl⟩, rfl⟩ ?_
  rintro trace s c effect - ⟨⟨queue, holds, elements⟩, emitted⟩ stepped
  obtain ⟨⟨result, s'⟩, called, rfl⟩ := Option.map_eq_some_iff.mp stepped
  have fresh : s.Fresh c := free_of_allocating called
  obtain ⟨s'', queue', performed, holds', elements'⟩ := holds.perform sized unset movedFrom fresh
  rw [call, allocating_of_free fresh, performed] at called
  cases called
  rw [List.map_append, List.map_singleton, emissions_append_singleton,
    resultsFrom_append_singleton, emitted, queueAfter, List.foldl_append]
  exact ⟨⟨queue', holds', by rw [elements', elements]; rfl⟩, by rw [elements]; rfl⟩

/-- For every maximum size and every size of the array the calls return what they return for a
queue of at most so many elements. The array offers exactly the entries that the elements leave
free, none of which is queued, and no call reaches outside of it. -/
theorem fifo_is_bounded_queue (unset : α) (movedFrom : α → α) (maxSize cashSize : Int)
    (sized : 0 ≤ cashSize) (supply : List P) (enough : cashSize ≤ supply.length)
    (distinct : supply.Nodup) :
    ∃ s₀, new unset maxSize cashSize supply = some s₀ ∧
      ∀ (trace : List (Transition (FifoFast P α) (FifoCall P α) (FifoResult α)))
        (s : FifoFast P α), (machine unset movedFrom).Run s₀ trace s →
          emissions trace = resultsFrom maxSize [] (trace.map Transition.event) ∧
          (∀ c, s.Fresh c → ∃ s', s.call unset movedFrom c =
            some (c.result maxSize (queueAfter maxSize (trace.map Transition.event)), s')) ∧
          s.indexInCashPlus1 = max 0 (cashSize - s.numOfElemets) ∧
          ∃ queued, s.queuedNow = some queued ∧
            queued.length = (queueAfter maxSize (trace.map Transition.event)).length ∧
            ∀ p ∈ queued, some p ∉ s.cachedNow := by
  obtain ⟨s₀, constructed, holds₀⟩ := holds_new unset maxSize sized enough distinct
  refine ⟨s₀, constructed, fun trace s run => ?_⟩
  obtain ⟨⟨queue, holds, elements⟩, emitted⟩ := run_holds sized holds₀ run
  obtain ⟨cached, keeps, balanced⟩ := id holds
  refine ⟨emitted, fun c fresh => ?_, balanced, queue.map Prod.fst, ?_, ?_, fun p queued => ?_⟩
  · obtain ⟨s', queue', performed, -⟩ := holds.perform sized unset movedFrom fresh
    rw [elements] at performed
    exact ⟨s', (allocating_of_free fresh _).trans performed⟩
  · rw [queuedNow, keeps.first, keeps.count, Int.toNat_natCast]
    exact keeps.queued.walk_eq (Nat.le_refl _)
  · rw [← elements, List.length_map, List.length_map]
  · intro offered
    obtain ⟨i, inside, here⟩ := List.mem_map.mp offered
    rw [keeps.index, Int.toNat_natCast, List.mem_range] at inside
    rw [keeps.cash i inside] at here
    exact List.disjoint_of_nodup_append keeps.distinct queued (List.mem_of_getElem? here)

/-- Two elements with an array for one, and a third one that does not fit. -/
def growAndShrink : List (FifoCall ℕ ℕ) :=
  [.addElement1 7 20, .addElement2 8 21, .addElement1 9 22, .extract, .extractMv, .extract]

/-- A queue for two takes two elements, refuses the third, and gives the two back in order. -/
theorem fifo_is_bounded_queue_growAndShrink :
    ∃ s₀ : FifoFast ℕ ℕ, new 0 2 1 [10] = some s₀ ∧
      ((machine 0 fun _ => 0).execute s₀ growAndShrink).isSome ∧
      ∀ trace s, (machine 0 fun _ => 0).Run s₀ trace s →
        trace.map Transition.event = growAndShrink →
          emissions trace = [.added true, .added true, .added false, .extracted (some 7),
            .extracted (some 8), .extracted none] := by
  obtain ⟨s₀, constructed, runs⟩ :=
    fifo_is_bounded_queue 0 (fun _ => 0) 2 1 (by decide) [10] (by decide) (by decide)
  refine ⟨s₀, constructed, ?_, fun trace s run events => ?_⟩
  · cases constructed
    decide
  · rw [(runs trace s run).1, events]
    rfl

end Runs

end FifoFast

end Common

end CppRaft
