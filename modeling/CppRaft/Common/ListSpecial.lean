import CppRaft.Nodes.Table

/-!
# Intrusive lists

`ListSpecial` links items that carry the links themselves, so that an item goes from one list to
another without being copied, and a whole list is appended to another one by four assignments.
Several lists share the memory of their items. `Holds` says which sequence of items a list
represents; every operation does to the sequences what its name says and leaves the items of other
lists alone.
-/

namespace CppRaft

namespace Common

open Machine Store

/-- `ListSpecial`: its two ends and its counter. -/
structure ListSpecial (P : Type) where
  first : Option P := none
  last : Option P := none
  count : Int := 0
  deriving DecidableEq, Repr

/-- A counter that grows; beyond the largest `int` this is undefined. -/
def raise (count more : Int) : Option Int :=
  if count + more ≤ maxCount then some (count + more) else none

namespace ListSpecial

variable {P α : Type}

/-- A bound for the loops over a list. -/
def bound (l : ListSpecial P) : ℕ :=
  l.count.toNat + 1

/-- The items from `first()` along `next`. -/
def forward (l : ListSpecial P) (h : Heap P α) : Option (List P) :=
  h.walk Cell.next l.bound l.first

/-- The items from the last one along `prev`. -/
def backward (l : ListSpecial P) (h : Heap P α) : Option (List P) :=
  h.walk Cell.prev l.bound l.last

section Operations

variable [DecidableEq P]

/-- `AddDataRaw`. -/
def addDataRaw (p : P) (l : ListSpecial P) (h : Heap P α) :
    Option (ListSpecial P × Heap P α) := do
  let h ← h.write p fun cell => { cell with prev := l.last, next := none }
  let count ← raise l.count 1
  match l.first with
  | none => pure (⟨some p, some p, count⟩, h)
  | some _ =>
      let h ← h.assignNext l.last (some p)
      pure (⟨l.first, some p, count⟩, h)

/-- `AddDataRaw` counts the item. -/
theorem count_addDataRaw {p : P} {l l' : ListSpecial P} {h h' : Heap P α}
    (added : l.addDataRaw p h = some (l', h')) : l'.count = l.count + 1 := by
  obtain ⟨written, -, added⟩ := Option.bind_eq_some_iff.mp added
  obtain ⟨count, raised, added⟩ := Option.bind_eq_some_iff.mp added
  obtain ⟨-, ⟨⟩⟩ := Option.ite_none_right_eq_some.mp raised
  cases first : l.first with
  | none =>
      rw [first] at added
      cases added
      rfl
  | some q =>
      rw [first] at added
      obtain ⟨linked, -, added⟩ := Option.bind_eq_some_iff.mp added
      cases added
      rfl

/-- `RemoveDataRaw`; it returns the item behind the one removed. -/
def removeDataRaw (p : P) (l : ListSpecial P) (h : Heap P α) :
    Option (Option P × ListSpecial P × Heap P α) := do
  let h ← h.unlink p
  let cell ← h p
  let first := if some p = l.first then cell.next else l.first
  let last := if some p = l.last then cell.prev else l.last
  pure (cell.next, ⟨first, last, l.count - 1⟩, h)

/-- `MoveContentToOtherList`: the list, the other one and the memory after it. -/
def moveContentToOtherList (l other : ListSpecial P) (h : Heap P α) :
    Option (ListSpecial P × ListSpecial P × Heap P α) := do
  let h ← h.setNext other.last l.first
  let otherFirst := if other.last = none then l.first else other.first
  let h ← h.setPrev l.first other.last
  let otherLast := if l.first = none then other.last else l.last
  let count ← raise other.count l.count
  pure ({}, ⟨otherFirst, otherLast, count⟩, h)

/-- `MoveItemToOtherList`. -/
def moveItemToOtherList (p : P) (l other : ListSpecial P) (h : Heap P α) :
    Option (ListSpecial P × ListSpecial P × Heap P α) := do
  let (_, l, h) ← l.removeDataRaw p h
  let (other, h) ← other.addDataRaw p h
  pure (l, other, h)

end Operations

/-- The list represents this sequence of items. -/
structure Holds (h : Heap P α) (l : ListSpecial P) (items : List P) : Prop where
  distinct : items.Nodup
  linked : h.Linked none items none
  first : l.first = items.head?
  last : l.last = items.getLast?
  count : l.count = items.length

/-- A counter that stays an `int` is raised. -/
theorem raise_of_le {count more : Int} (room : count + more ≤ maxCount) :
    raise count more = some (count + more) :=
  if_pos room

/-- A counter that was raised is an `int`. -/
theorem le_of_raise {count more raised : Int} (done : raise count more = some raised) :
    count + more ≤ maxCount := by
  by_contra full
  rw [raise, if_neg full] at done
  cases done

/-- Only a list whose counter can grow takes an item. -/
theorem room_of_addDataRaw [DecidableEq P] {p : P} {l : ListSpecial P} {h : Heap P α}
    {result : ListSpecial P × Heap P α} (added : l.addDataRaw p h = some result) :
    l.count + 1 ≤ maxCount := by
  obtain ⟨written, -, added⟩ := Option.bind_eq_some_iff.mp added
  obtain ⟨count, raised, -⟩ := Option.bind_eq_some_iff.mp added
  exact le_of_raise raised

namespace Holds

variable {h h' : Heap P α} {l other : ListSpecial P} {items others : List P}

/-- The constructed list. -/
theorem empty (h : Heap P α) : Holds h {} [] :=
  ⟨List.nodup_nil, trivial, rfl, rfl, rfl⟩

/-- The bound on a traversal is no smaller than the list. -/
theorem length_le_bound (holds : Holds h l items) : items.length ≤ l.bound := by
  rw [bound, holds.count, Int.toNat_natCast]
  exact Nat.le_succ _

/-- Following `next` visits the sequence in order. -/
theorem forward_eq (holds : Holds h l items) : l.forward h = some items := by
  rw [forward, holds.first]
  exact holds.linked.walk_next _ holds.length_le_bound

/-- Following `prev` visits it in the reverse order. -/
theorem backward_eq (holds : Holds h l items) : l.backward h = some items.reverse := by
  rw [backward, holds.last]
  exact holds.linked.walk_prev _ holds.length_le_bound

/-- The sequence is determined by the list. -/
theorem unique (holds : Holds h l items) (holds' : Holds h l others) : items = others :=
  Option.some.inj (holds.forward_eq.symm.trans holds'.forward_eq)

/-- Memory with the same links. -/
theorem congr_links (holds : Holds h l items) (same : ∀ p ∈ items, h'.linksAt p = h.linksAt p) :
    Holds h' l items :=
  { holds with linked := holds.linked.congr_links same }

/-- Memory that changes elsewhere. -/
theorem of_relinks {cells : List P} (holds : Holds h l items) (relinks : Heap.Relinks h h' cells)
    (apart : items.Disjoint cells) : Holds h' l items :=
  holds.congr_links fun p member => by
    rw [Heap.linksAt, relinks.others p fun changed => apart member changed, Heap.linksAt]

variable [DecidableEq P]

/-- An item in no list is appended. -/
theorem addDataRaw {p : P} (holds : Holds h l items) (fresh : p ∉ items) (allocated : h p ≠ none)
    (room : l.count + 1 ≤ maxCount) :
    ∃ l' h', l.addDataRaw p h = some (l', h') ∧ Holds h' l' (items ++ [p]) ∧
      Heap.Relinks h h' (p :: items) := by
  obtain ⟨cell, read⟩ := Option.ne_none_iff_exists'.mp allocated
  let written := Function.update h p (some { cell with prev := l.last, next := none })
  have writes : Heap.Relinks h written [p] := .update (List.mem_singleton_self p) read rfl
  have here : written p = some ⟨items.getLast?, none, cell.data⟩ := by
    simp only [written, Function.update_self, holds.last]
  obtain ⟨h', assigned, linked, relinks⟩ :=
    (holds.linked.update fresh _).link_last holds.distinct fresh here
  refine ⟨⟨(items ++ [p]).head?, some p, l.count + 1⟩, h', ?_, ⟨?_, linked, rfl, ?_, ?_⟩,
    writes.trans relinks⟩
  · unfold ListSpecial.addDataRaw
    simp only [Heap.write, read, raise_of_le room, Option.bind_eq_bind, Option.bind_some,
      Option.pure_def]
    cases items with
    | nil =>
        cases assigned
        rw [holds.first]
        rfl
    | cons q rest =>
        have assigned' : Heap.assignNext written l.last (some p) = some h' := by
          rw [holds.last, List.getLast?_cons]
          rwa [List.getLast?_cons] at assigned
        rw [holds.first]
        exact congrArg (Option.bind · _) assigned'
  · rw [List.nodup_append_comm]
    exact List.nodup_cons.mpr ⟨fresh, holds.distinct⟩
  · rw [List.getLast?_concat]
  · rw [holds.count, List.length_append]
    rfl

/-- An item of the list is taken out, and the one behind it is returned. -/
theorem removeDataRaw {before after : List P} {p : P} (holds : Holds h l (before ++ p :: after)) :
    ∃ l' h', l.removeDataRaw p h = some (after.head?, l', h') ∧ Holds h' l' (before ++ after) ∧
      Heap.Relinks h h' (before ++ after) := by
  obtain ⟨data, cell⟩ := holds.linked.cell_of_whole
  obtain ⟨h', unlinked, linked, same, relinks⟩ := holds.linked.unlink_mem holds.distinct
  refine ⟨⟨(before ++ after).head?, (before ++ after).getLast?, l.count - 1⟩, h', ?_,
    ⟨?_, linked, rfl, rfl, ?_⟩, relinks⟩
  · simp only [ListSpecial.removeDataRaw, unlinked, same, cell, Option.bind_eq_bind,
      Option.bind_some, Option.pure_def, holds.first, holds.last,
      Heap.head?_unlink holds.distinct, Heap.getLast?_unlink holds.distinct]
  · exact (List.nodup_cons.mp (List.nodup_middle.mp holds.distinct)).2
  · have counted := holds.count
    rw [List.length_append, List.length_cons] at counted
    simp only [counted, List.length_append]
    omega

/-- The items of one list go behind those of another one. -/
theorem moveContentToOtherList (holds : Holds h l items) (holds' : Holds h other others)
    (apart : others.Disjoint items) (room : other.count + l.count ≤ maxCount) :
    ∃ other' h', l.moveContentToOtherList other h = some ({}, other', h') ∧
      Holds h' other' (others ++ items) ∧ Heap.Relinks h h' (others ++ items) := by
  have distinct : (others ++ items).Nodup :=
    List.nodup_append'.mpr ⟨holds'.distinct, holds.distinct, apart⟩
  obtain ⟨h₁, h₂, assigned₁, assigned₂, linked, -, relinks⟩ :=
    holds'.linked.join holds.linked distinct
  refine ⟨⟨(others ++ items).head?, (others ++ items).getLast?, other.count + l.count⟩, h₂, ?_,
    ⟨distinct, linked, rfl, rfl, ?_⟩, relinks⟩
  · have first : (if others.getLast? = none then items.head? else others.head?) =
        (others ++ items).head? := by
      cases others with
      | nil => rfl
      | cons q rest => simp
    have last : (if items.head? = none then others.getLast? else items.getLast?) =
        (others ++ items).getLast? := by
      rcases List.eq_nil_or_concat items with rfl | ⟨front, q, rfl⟩
      · simp
      · simp [List.concat_eq_append, List.getLast?_append]
    simp only [ListSpecial.moveContentToOtherList, holds'.last, holds.first, holds.last,
      holds'.first, assigned₁, assigned₂, raise_of_le room, first, last, Option.bind_eq_bind,
      Option.bind_some, Option.pure_def]
  · rw [holds'.count, holds.count, List.length_append, Int.natCast_add]

/-- An item of one list goes behind the items of another one. -/
theorem moveItemToOtherList {before after : List P} {p : P}
    (holds : Holds h l (before ++ p :: after)) (holds' : Holds h other others)
    (apart : others.Disjoint (before ++ p :: after)) (room : other.count + 1 ≤ maxCount) :
    ∃ l' other' h', l.moveItemToOtherList p other h = some (l', other', h') ∧
      Holds h' l' (before ++ after) ∧ Holds h' other' (others ++ [p]) ∧
      Heap.Relinks h h' ((before ++ after) ++ p :: others) := by
  obtain ⟨l', h₁, removed, holds₁, relinks₁⟩ := holds.removeDataRaw
  have fresh : p ∉ before ++ after := (List.nodup_cons.mp (List.nodup_middle.mp holds.distinct)).1
  have outside : p ∉ others := fun member =>
    apart member (List.mem_append_right before List.mem_cons_self)
  have rest : others.Disjoint (before ++ after) :=
    List.disjoint_of_subset_right (sublist_middle before after p).subset apart
  have allocated : h₁ p ≠ none := by
    obtain ⟨data, cell⟩ := holds.linked.cell_of_whole
    rw [relinks₁.others p fresh, cell]
    exact Option.some_ne_none _
  obtain ⟨other', h₂, added, holds₂, relinks₂⟩ :=
    (holds'.of_relinks relinks₁ rest).addDataRaw outside allocated room
  refine ⟨l', other', h₂, ?_, holds₁.of_relinks relinks₂ ?_, holds₂, relinks₁.trans relinks₂⟩
  · simp only [ListSpecial.moveItemToOtherList, removed, added, Option.bind_eq_bind,
      Option.bind_some, Option.pure_def]
  · exact List.disjoint_cons_right.mpr ⟨fresh, List.disjoint_symm rest⟩

end Holds

end ListSpecial

end Common

end CppRaft
