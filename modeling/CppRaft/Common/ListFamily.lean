import Mathlib.Data.Fintype.Defs
import CppRaft.Common.ListSpecial

/-!
# Lists that exchange their items

A family of lists over one memory of items, with the calls that add an item to a list, take one
out and move items from list to list. What the lists show is the sequences that the same calls
make by appending, deleting and concatenating.
-/

namespace CppRaft

namespace Common

open Machine Store

/-- A family of lists and the memory of their items. -/
structure Lists (ι P α : Type) where
  items : Heap P α
  lists : ι → ListSpecial P

/-- A call on one or two lists of the family. -/
inductive ListCall (ι P : Type) where
  | addDataRaw (i : ι) (p : P)
  | removeDataRaw (i : ι) (p : P)
  | moveContentToOtherList (i j : ι)
  | moveItemToOtherList (i j : ι) (p : P)
  deriving DecidableEq, Repr

variable {ι P α : Type} [DecidableEq ι] [DecidableEq P]

namespace ListCall

/-- What a call does to the sequences. -/
def meaning : ListCall ι P → (ι → List P) → ι → List P
  | addDataRaw i p, sequences => Function.update sequences i (sequences i ++ [p])
  | removeDataRaw i p, sequences => Function.update sequences i ((sequences i).erase p)
  | moveContentToOtherList i j, sequences =>
      Function.update (Function.update sequences i []) j (sequences j ++ sequences i)
  | moveItemToOtherList i j p, sequences =>
      Function.update (Function.update sequences i ((sequences i).erase p)) j (sequences j ++ [p])

/-- An item is added that is in no list, removed and moved from the list it is in, and the two
lists of a call are different ones. -/
def Allowed (sequences : ι → List P) : ListCall ι P → Prop
  | addDataRaw _ p => ∀ k, p ∉ sequences k
  | removeDataRaw i p => p ∈ sequences i
  | moveContentToOtherList i j => i ≠ j
  | moveItemToOtherList i j p => i ≠ j ∧ p ∈ sequences i

instance [Fintype ι] (sequences : ι → List P) :
    (c : ListCall ι P) → Decidable (c.Allowed sequences)
  | addDataRaw _ p => inferInstanceAs (Decidable (∀ k, p ∉ sequences k))
  | removeDataRaw i p => inferInstanceAs (Decidable (p ∈ sequences i))
  | moveContentToOtherList i j => inferInstanceAs (Decidable (i ≠ j))
  | moveItemToOtherList i j p => inferInstanceAs (Decidable (i ≠ j ∧ p ∈ sequences i))

end ListCall

namespace Lists

/-- The constructed lists. The links of the items are whatever they are. -/
def start (cells : P → Cell P α) : Lists ι P α where
  items p := some (cells p)
  lists _ := {}

/-- What a call returns, if anything, and the lists after it. A list is not moved into itself. -/
def call : ListCall ι P → Lists ι P α → Option (List (Option P) × Lists ι P α)
  | .addDataRaw i p, s => do
      let (l, items) ← (s.lists i).addDataRaw p s.items
      pure ([], ⟨items, Function.update s.lists i l⟩)
  | .removeDataRaw i p, s => do
      let (next, l, items) ← (s.lists i).removeDataRaw p s.items
      pure ([next], ⟨items, Function.update s.lists i l⟩)
  | .moveContentToOtherList i j, s =>
      if i = j then none
      else do
        let (l, other, items) ← (s.lists i).moveContentToOtherList (s.lists j) s.items
        pure ([], ⟨items, Function.update (Function.update s.lists i l) j other⟩)
  | .moveItemToOtherList i j p, s =>
      if i = j then none
      else do
        let (l, other, items) ← (s.lists i).moveItemToOtherList p (s.lists j) s.items
        pure ([], ⟨items, Function.update (Function.update s.lists i l) j other⟩)

/-- The lists as a machine that emits the items its calls return. -/
def machine : Machine (Lists ι P α) (ListCall ι P) (Option P) where
  step := fun s event => (s.call event).map fun (returned, s) => ⟨s, returned⟩

/-- The counter that a call raises stays an `int`. -/
def CounterFits (s : Lists ι P α) : ListCall ι P → Prop
  | .addDataRaw i _ => (s.lists i).count + 1 ≤ maxCount
  | .removeDataRaw _ _ => True
  | .moveContentToOtherList i j => (s.lists j).count + (s.lists i).count ≤ maxCount
  | .moveItemToOtherList _ j _ => (s.lists j).count + 1 ≤ maxCount

/-- The sequences that the calls of a run make. -/
def sequencesAfter (trace : List (Transition (Lists ι P α) (ListCall ι P) (Option P))) :
    ι → List P :=
  trace.foldl (fun sequences step => step.event.meaning sequences) fun _ => []

/-- The sequences are computed call by call. -/
theorem sequencesAfter_append_singleton
    (trace : List (Transition (Lists ι P α) (ListCall ι P) (Option P)))
    (step : Transition (Lists ι P α) (ListCall ι P) (Option P)) :
    sequencesAfter (trace ++ [step]) = step.event.meaning (sequencesAfter trace) := by
  rw [sequencesAfter, List.foldl_append]
  rfl

/-- Every list represents its sequence, and no two lists have an item in common. -/
structure Shows (s : Lists ι P α) (sequences : ι → List P) : Prop where
  holds : ∀ i, (s.lists i).Holds s.items (sequences i)
  apart : ∀ i j, i ≠ j → (sequences i).Disjoint (sequences j)
  allocated : ∀ p, s.items p ≠ none

omit [DecidableEq ι] [DecidableEq P] in
/-- New lists are empty. -/
theorem start_shows (cells : P → Cell P α) : Shows (start cells : Lists ι P α) fun _ => [] where
  holds _ := .empty _
  apart _ _ _ := List.disjoint_nil_left _
  allocated _ := Option.some_ne_none _

namespace Shows

variable {s : Lists ι P α} {sequences : ι → List P}

omit [DecidableEq P] in
/-- One list is changed, with items that no other list has. -/
theorem change (shows : Shows s sequences) {i : ι} {l : ListSpecial P} {items : Heap P α}
    {new cells : List P} (holds : l.Holds items new) (relinks : Heap.Relinks s.items items cells)
    (apart : ∀ j, j ≠ i → (sequences j).Disjoint new)
    (elsewhere : ∀ j, j ≠ i → (sequences j).Disjoint cells) :
    Shows ⟨items, Function.update s.lists i l⟩ (Function.update sequences i new) where
  holds j := by
    by_cases same : j = i
    · subst same
      simpa only [Function.update_self] using holds
    · simp only [Function.update_of_ne same]
      exact (shows.holds j).of_relinks relinks (elsewhere j same)
  apart j k different := by
    by_cases first : j = i
    · subst first
      rw [Function.update_self, Function.update_of_ne different.symm]
      exact List.disjoint_symm (apart k different.symm)
    · by_cases second : k = i
      · subst second
        rw [Function.update_self, Function.update_of_ne first]
        exact apart j first
      · rw [Function.update_of_ne first, Function.update_of_ne second]
        exact shows.apart j k different
  allocated p := by
    rw [ne_eq, ← Heap.dataAt_eq_none_iff, relinks.data, Heap.dataAt_eq_none_iff]
    exact shows.allocated p

/-- An item in no list is added to one. -/
theorem addDataRaw (shows : Shows s sequences) {i : ι} {p : P} (outside : ∀ k, p ∉ sequences k)
    (room : (s.lists i).count + 1 ≤ maxCount) :
    ∃ l items, (s.lists i).addDataRaw p s.items = some (l, items) ∧
      Shows ⟨items, Function.update s.lists i l⟩
        (Function.update sequences i (sequences i ++ [p])) := by
  obtain ⟨l, items, added, holds, relinks⟩ :=
    (shows.holds i).addDataRaw (outside i) (shows.allocated p) room
  refine ⟨l, items, added, shows.change holds relinks (fun j other => ?_) fun j other => ?_⟩
  · apply List.disjoint_append_right.mpr
    exact ⟨shows.apart j i other, List.disjoint_singleton.mpr (outside j)⟩
  · exact List.disjoint_cons_right.mpr ⟨outside j, shows.apart j i other⟩

/-- An item of a list is taken out of it. -/
theorem removeDataRaw (shows : Shows s sequences) {i : ι} {p : P} {before after : List P}
    (listed : sequences i = before ++ p :: after) :
    ∃ l items, (s.lists i).removeDataRaw p s.items = some (after.head?, l, items) ∧
      Shows ⟨items, Function.update s.lists i l⟩
        (Function.update sequences i ((sequences i).erase p)) := by
  have holds := shows.holds i
  rw [listed] at holds
  obtain ⟨l, items, removed, holds', relinks⟩ := holds.removeDataRaw
  have fresh : p ∉ before := fun member =>
    (List.nodup_cons.mp (List.nodup_middle.mp holds.distinct)).1 (List.mem_append_left _ member)
  have rest : (sequences i).erase p = before ++ after := by
    rw [listed, List.erase_append_right _ fresh, List.erase_cons_head]
  have apart (j : ι) (other : j ≠ i) : (sequences j).Disjoint (before ++ after) := by
    refine List.disjoint_of_subset_right ?_ (shows.apart j i other)
    rw [← rest]
    exact List.erase_subset
  rw [rest]
  exact ⟨l, items, removed, shows.change holds' relinks apart apart⟩

/-- The items of a list go behind those of another one. -/
theorem moveContentToOtherList (shows : Shows s sequences) {i j : ι} (different : i ≠ j)
    (room : (s.lists j).count + (s.lists i).count ≤ maxCount) :
    ∃ other items,
      (s.lists i).moveContentToOtherList (s.lists j) s.items = some ({}, other, items) ∧
      Shows ⟨items, Function.update (Function.update s.lists i {}) j other⟩
        (Function.update (Function.update sequences i []) j (sequences j ++ sequences i)) := by
  obtain ⟨other, items, moved, holds, relinks⟩ :=
    (shows.holds i).moveContentToOtherList (shows.holds j) (shows.apart j i different.symm) room
  -- The list is emptied first, so that its items are free to go into the other one.
  have emptied : Shows ⟨s.items, Function.update s.lists i {}⟩ (Function.update sequences i []) :=
    shows.change (.empty _) (.refl _ []) (fun _ _ => List.disjoint_nil_right _)
      fun _ _ => List.disjoint_nil_right _
  have apart (k : ι) (elsewhere : k ≠ j) :
      (Function.update sequences i [] k).Disjoint (sequences j ++ sequences i) := by
    by_cases own : k = i
    · subst own
      rw [Function.update_self]
      exact List.disjoint_nil_left _
    · rw [Function.update_of_ne own]
      apply List.disjoint_append_right.mpr
      exact ⟨shows.apart k j elsewhere, shows.apart k i own⟩
  exact ⟨other, items, moved, emptied.change holds relinks apart apart⟩

/-- An item of a list goes to the end of another one. -/
theorem moveItemToOtherList (shows : Shows s sequences) {i j : ι} (different : i ≠ j) {p : P}
    (member : p ∈ sequences i) (room : (s.lists j).count + 1 ≤ maxCount) :
    ∃ l other items,
      (s.lists i).moveItemToOtherList p (s.lists j) s.items = some (l, other, items) ∧
      Shows ⟨items, Function.update (Function.update s.lists i l) j other⟩
        (Function.update (Function.update sequences i ((sequences i).erase p)) j
          (sequences j ++ [p])) := by
  obtain ⟨before, after, listed⟩ := List.append_of_mem member
  obtain ⟨l, items, removed, removedShows⟩ := shows.removeDataRaw listed
  have outside (k : ι) : p ∉ Function.update sequences i ((sequences i).erase p) k := by
    by_cases own : k = i
    · subst own
      rw [Function.update_self]
      exact (shows.holds k).distinct.not_mem_erase
    · rw [Function.update_of_ne own]
      exact fun inOther => shows.apart k i own inOther member
  have unchanged : Function.update s.lists i l j = s.lists j :=
    Function.update_of_ne different.symm _ _
  obtain ⟨other, items', added, addedShows⟩ :=
    removedShows.addDataRaw (i := j) outside (by simpa only [unchanged] using room)
  simp only [unchanged, Function.update_of_ne different.symm] at added addedShows
  refine ⟨l, other, items', ?_, addedShows⟩
  simp only [ListSpecial.moveItemToOtherList, removed, added, Option.bind_eq_bind,
    Option.bind_some, Option.pure_def]

/-- A call whose counter stays an `int` does to the lists what it means for the sequences. -/
theorem call_eq (shows : Shows s sequences) {c : ListCall ι P} (allowed : c.Allowed sequences)
    (fits : s.CounterFits c) :
    ∃ returned s', s.call c = some (returned, s') ∧ Shows s' (c.meaning sequences) := by
  cases c with
  | addDataRaw i p =>
      obtain ⟨l, items, added, shows'⟩ := shows.addDataRaw allowed fits
      exact ⟨_, _, congrArg (Option.bind · _) added, shows'⟩
  | removeDataRaw i p =>
      obtain ⟨before, after, listed⟩ := List.append_of_mem (show p ∈ sequences i from allowed)
      obtain ⟨l, items, removed, shows'⟩ := shows.removeDataRaw listed
      exact ⟨_, _, congrArg (Option.bind · _) removed, shows'⟩
  | moveContentToOtherList i j =>
      obtain ⟨other, items, moved, shows'⟩ := shows.moveContentToOtherList allowed fits
      refine ⟨[], _, ?_, shows'⟩
      rw [Lists.call, if_neg allowed]
      exact congrArg (Option.bind · _) moved
  | moveItemToOtherList i j p =>
      obtain ⟨l, other, items, moved, shows'⟩ :=
        shows.moveItemToOtherList allowed.1 allowed.2 fits
      refine ⟨[], _, ?_, shows'⟩
      rw [Lists.call, if_neg allowed.1]
      exact congrArg (Option.bind · _) moved

end Shows

/-- A counter that leaves the `int`s makes the call undefined. -/
theorem call_eq_none {s : Lists ι P α} {c : ListCall ι P} (overflows : ¬s.CounterFits c) :
    s.call c = none := by
  have full {count more : Int} (overflows : ¬count + more ≤ maxCount) : raise count more = none :=
    if_neg overflows
  cases c with
  | addDataRaw i p => simp [call, ListSpecial.addDataRaw, full overflows]
  | removeDataRaw i p => exact absurd trivial overflows
  | moveContentToOtherList i j => simp [call, ListSpecial.moveContentToOtherList, full overflows]
  | moveItemToOtherList i j p =>
      simp [call, ListSpecial.moveItemToOtherList, ListSpecial.addDataRaw, full overflows]

/-- An allowed call that has an effect does to the lists what it means for the sequences. -/
theorem Shows.call {s s' : Lists ι P α} {sequences : ι → List P} (shows : Shows s sequences)
    {c : ListCall ι P} (allowed : c.Allowed sequences) {returned : List (Option P)}
    (called : s.call c = some (returned, s')) : Shows s' (c.meaning sequences) := by
  by_cases fits : s.CounterFits c
  · obtain ⟨_, _, called', shows'⟩ := shows.call_eq allowed fits
    cases called.symm.trans called'
    exact shows'
  · rw [call_eq_none fits] at called
    cases called

/-- The calls of a run, each allowed for the sequences before it. -/
def AllowedAlong (trace : List (Transition (Lists ι P α) (ListCall ι P) (Option P))) : Prop :=
  Along (fun past step => step.event.Allowed (sequencesAfter past)) trace

instance [Fintype ι] (trace : List (Transition (Lists ι P α) (ListCall ι P) (Option P))) :
    Decidable (AllowedAlong trace) :=
  inferInstanceAs
    (Decidable (Along (fun past step => step.event.Allowed (sequencesAfter past)) trace))

/-- After a run of allowed calls every list holds its sequence, in both directions. -/
theorem shows_sequencesAfter {cells : P → Cell P α}
    {trace : List (Transition (Lists ι P α) (ListCall ι P) (Option P))} {s : Lists ι P α}
    (run : machine.Run (start cells) trace s) (allowed : AllowedAlong trace) :
    Shows s (sequencesAfter trace) := by
  refine run.invariant_along (fun trace s => Shows s (sequencesAfter trace)) (start_shows cells) ?_
    allowed
  intro trace s c effect _ shows stepped allowed
  obtain ⟨⟨returned, s'⟩, called, rfl⟩ := Option.map_eq_some_iff.mp stepped
  rw [sequencesAfter_append_singleton]
  exact shows.call allowed called

/-- After every sequence of allowed calls, every list shows its sequence in both directions, at its
ends and in its counter, `RemoveDataRaw` returns the item behind the removed one, and the allowed
calls to come are defined exactly as long as the counters are `int`s. -/
theorem lists_show_sequences (cells : P → Cell P α)
    (trace : List (Transition (Lists ι P α) (ListCall ι P) (Option P))) (s : Lists ι P α)
    (run : machine.Run (start cells) trace s) (allowed : AllowedAlong trace) :
    (∀ i, (s.lists i).forward s.items = some (sequencesAfter trace i) ∧
      (s.lists i).backward s.items = some (sequencesAfter trace i).reverse ∧
      (s.lists i).first = (sequencesAfter trace i).head? ∧
      (s.lists i).last = (sequencesAfter trace i).getLast? ∧
      (s.lists i).count = (sequencesAfter trace i).length) ∧
    (∀ i j, i ≠ j → (sequencesAfter trace i).Disjoint (sequencesAfter trace j)) ∧
    (∀ i p before after, sequencesAfter trace i = before ++ p :: after →
      ∃ s', s.call (.removeDataRaw i p) = some ([after.head?], s')) ∧
    ∀ c : ListCall ι P, c.Allowed (sequencesAfter trace) →
      ((s.call c).isSome ↔ s.CounterFits c) := by
  have shows := shows_sequencesAfter run allowed
  refine ⟨fun i => ?_, shows.apart, fun i p before after listed => ?_, fun c allowed => ?_⟩
  · have holds := shows.holds i
    exact ⟨holds.forward_eq, holds.backward_eq, holds.first, holds.last, holds.count⟩
  · obtain ⟨l, items, removed, -⟩ := shows.removeDataRaw listed
    exact ⟨_, congrArg (Option.bind · _) removed⟩
  · constructor
    · intro defined
      by_contra overflows
      rw [call_eq_none overflows] at defined
      cases defined
    · intro fits
      obtain ⟨_, _, called, -⟩ := shows.call_eq allowed fits
      rw [called, Option.isSome_some]

/-- Two lists that exchange three items; one is taken out from between the others. -/
def exchange : List (ListCall Bool ℕ) :=
  [.addDataRaw false 5, .addDataRaw false 6, .addDataRaw true 7, .moveContentToOtherList false true,
    .removeDataRaw true 5, .moveItemToOtherList true false 7, .addDataRaw true 5]

/-- Items with links to themselves. -/
def selfLinked (p : ℕ) : Cell ℕ Unit :=
  ⟨some p, some p, ()⟩

/-- Items are moved between two lists and back: one list has two of them and the other has
one. -/
theorem lists_show_sequences_exchange :
    ((machine.stateOf (start selfLinked) exchange).lists true).forward
        (machine.stateOf (start selfLinked) exchange).items = some [6, 5] ∧
      ((machine.stateOf (start selfLinked) exchange).lists false).backward
        (machine.stateOf (start selfLinked) exchange).items = some [7] := by
  have shown := (lists_show_sequences selfLinked _ _ (run_traceOf machine (start selfLinked)
    exchange (by decide +kernel)) (by decide +kernel)).1
  have sequences : sequencesAfter (machine.traceOf (start selfLinked) exchange) true = [6, 5] ∧
      sequencesAfter (machine.traceOf (start selfLinked) exchange) false = [7] := by
    decide +kernel
  refine ⟨(shown true).1.trans (congrArg some sequences.1), (shown false).2.1.trans ?_⟩
  rw [sequences.2]
  rfl

end Lists

end Common

end CppRaft
