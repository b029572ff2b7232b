import Mathlib.Data.List.Nodup
import Mathlib.Logic.Function.Basic

/-!
# Doubly linked cells in a memory

A memory holds the cells that are allocated; reading or writing through any other
pointer is undefined. `Linked` says that a list of pointers is linked in both
directions between two given ends. Linking a cell at either end and taking one
out from anywhere are the assignments a program makes, and each changes the links
of the neighbours only.
-/

namespace CppRaft

namespace Store

theorem sublist_middle {β : Type} (before after : List β) (b : β) :
    (before ++ after).Sublist (before ++ b :: after) :=
  List.Sublist.append_left (List.sublist_cons_self b after) before

/-- Where the images are distinct, an element has the image of no other one. -/
theorem notMem_map_middle {β γ : Type} {f : β → γ} {before after : List β} {b : β}
    (distinct : ((before ++ b :: after).map f).Nodup) : f b ∉ (before ++ after).map f := by
  rw [List.map_append, List.map_cons, List.nodup_middle, ← List.map_append] at distinct
  exact (List.nodup_cons.mp distinct).1

/-- A cell: its two links and what it carries. -/
structure Cell (P α : Type) where
  prev : Option P
  next : Option P
  data : α
  deriving DecidableEq, Repr

/-- A memory of cells. -/
abbrev Heap (P α : Type) : Type :=
  P → Option (Cell P α)

namespace Heap

variable {P α : Type}

/-- What the cell behind a pointer carries. -/
def dataAt (h : Heap P α) (p : P) : Option α :=
  (h p).map Cell.data

/-- The links of the cell behind a pointer. -/
def linksAt (h : Heap P α) (p : P) : Option (Option P × Option P) :=
  (h p).map fun cell => (cell.prev, cell.next)

/-- Follow a link from cell to cell up to its end, at most `bound` times. -/
def walk (h : Heap P α) (link : Cell P α → Option P) : (bound : ℕ) → Option P → Option (List P)
  | _, none => some []
  | 0, some _ => none
  | bound + 1, some p => do
      let cell ← h p
      let rest ← walk h link bound (link cell)
      pure (p :: rest)

/-- The first cell along the `next` links that passes a test, looking at `bound` cells at most. -/
def search (h : Heap P α) (test : α → Bool) : (bound : ℕ) → Option P → Option (Option P)
  | _, none => some none
  | 0, some _ => none
  | bound + 1, some p => do
      let cell ← h p
      if test cell.data then pure (some p) else search h test bound cell.next

section Write

variable [DecidableEq P]

/-- Write through a pointer. -/
def write (h : Heap P α) (p : P) (change : Cell P α → Cell P α) : Option (Heap P α) := do
  let cell ← h p
  pure (Function.update h p (some (change cell)))

/-- Let the cell behind a pointer, if it is one, be followed by `next`. -/
def setNext (h : Heap P α) (p next : Option P) : Option (Heap P α) :=
  match p with
  | none => some h
  | some p => h.write p fun cell => { cell with next := next }

/-- Let the cell behind a pointer, if it is one, be preceded by `prev`. -/
def setPrev (h : Heap P α) (p prev : Option P) : Option (Heap P α) :=
  match p with
  | none => some h
  | some p => h.write p fun cell => { cell with prev := prev }

/-- Let the cell behind a pointer be followed by `next`; the null pointer has none. -/
def assignNext (h : Heap P α) (p next : Option P) : Option (Heap P α) := do
  let p ← p
  h.write p fun cell => { cell with next := next }

/-- Link the neighbours of a cell to each other. -/
def unlink (h : Heap P α) (p : P) : Option (Heap P α) := do
  let cell ← h p
  let h ← h.setNext cell.prev cell.next
  let cell ← h p
  h.setPrev cell.next cell.prev

/-- Allocate a cell. -/
def alloc (h : Heap P α) (p : P) (cell : Cell P α) : Heap P α :=
  Function.update h p (some cell)

/-- Release a cell. -/
def free (h : Heap P α) (p : P) : Heap P α :=
  Function.update h p none

end Write

/-- A cell has data exactly if it is allocated. -/
theorem dataAt_eq_none_iff {h : Heap P α} {p : P} : h.dataAt p = none ↔ h p = none :=
  Option.map_eq_none_iff

/-- Writing a cell leaves the others as they were. -/
theorem dataAt_update_of_ne [DecidableEq P] {h : Heap P α} {p q : P} (other : p ≠ q)
    (cell : Option (Cell P α)) : dataAt (Function.update h q cell) p = h.dataAt p :=
  congrArg (Option.map Cell.data) (Function.update_of_ne other _ _)

/-- Writing what a cell carries leaves all links. -/
theorem linksAt_update [DecidableEq P] {h : Heap P α} {p : P} {cell : Cell P α}
    (read : h p = some cell) (data : α) (q : P) :
    linksAt (Function.update h p (some { cell with data := data })) q = h.linksAt q := by
  by_cases here : q = p
  · rw [here, linksAt, Function.update_self, linksAt, read]
    rfl
  · rw [linksAt, Function.update_of_ne here, linksAt]

/-- A cell just allocated is linked to its successor. -/
theorem setNext_alloc [DecidableEq P] (h : Heap P α) (p : P) (prev next : Option P) (data : α) :
    (h.alloc p ⟨prev, none, data⟩).setNext (some p) next = some (h.alloc p ⟨prev, next, data⟩) := by
  simp only [alloc, setNext, write, Function.update_self, Option.bind_eq_bind, Option.bind_some,
    Option.pure_def, Function.update_idem]

/-- `h'` differs from `h` only in links, and those of the given cells only. -/
structure Relinks (h h' : Heap P α) (cells : List P) : Prop where
  data : ∀ p, h'.dataAt p = h.dataAt p
  others : ∀ p, p ∉ cells → h' p = h p

/-- Nothing was relinked. -/
theorem Relinks.refl (h : Heap P α) (cells : List P) : Relinks h h cells :=
  ⟨fun _ => rfl, fun _ _ => rfl⟩

/-- Changes of links add up. -/
theorem Relinks.trans {h h' h'' : Heap P α} {cells more : List P} (first : Relinks h h' cells)
    (second : Relinks h' h'' more) : Relinks h h'' (cells ++ more) where
  data p := (second.data p).trans (first.data p)
  others p outside := by
    rw [List.mem_append, not_or] at outside
    rw [second.others p outside.2, first.others p outside.1]

/-- A write that keeps the data of a listed cell only relinks. -/
theorem Relinks.update [DecidableEq P] {h : Heap P α} {list : List P} {p : P}
    {cell changed : Cell P α} (listed : p ∈ list) (read : h p = some cell)
    (same : changed.data = cell.data) : Relinks h (Function.update h p (some changed)) list where
  data q := by
    by_cases here : q = p
    · rw [here, dataAt, dataAt, Function.update_self, read, Option.map_some, Option.map_some, same]
    · exact dataAt_update_of_ne here _
  others q outside := by
    refine Function.update_of_ne ?_ _ _
    rintro rfl
    exact outside listed

/-- The pointers are linked in this order, between a cell before them and one after them. -/
def Linked (h : Heap P α) : Option P → List P → Option P → Prop
  | _, [], _ => True
  | before, p :: rest, after =>
      (∃ data, h p = some ⟨before, rest.head?.or after, data⟩) ∧ Linked h (some p) rest after

namespace Linked

variable {h h' : Heap P α} {before after : Option P}

/-- Two linked lists in a row. -/
theorem append_iff (first second : List P) :
    Linked h before (first ++ second) after ↔
      Linked h before first (second.head?.or after) ∧
        Linked h (first.getLast?.or before) second after := by
  induction first generalizing before with
  | nil => simp [Linked]
  | cons p rest ih =>
      have heads : (rest ++ second).head?.or after = rest.head?.or (second.head?.or after) := by
        rw [List.head?_append, Option.or_assoc]
      have lasts : (p :: rest).getLast?.or before = rest.getLast?.or (some p) := by
        cases rest <;> simp [List.getLast?_cons]
      rw [List.cons_append, Linked, Linked, ih, heads, lasts, and_assoc]

/-- Whether cells are linked is read off their links. -/
theorem congr_links {list : List P} (linked : Linked h before list after)
    (same : ∀ p ∈ list, h'.linksAt p = h.linksAt p) : Linked h' before list after := by
  induction list generalizing before with
  | nil => trivial
  | cons p rest ih =>
      obtain ⟨⟨data, cell⟩, linked⟩ := linked
      have links := same p List.mem_cons_self
      rw [linksAt, linksAt, cell, Option.map_some, Option.map_eq_some_iff] at links
      obtain ⟨⟨prev, next, data'⟩, cell', equal⟩ := links
      cases equal
      exact ⟨⟨data', cell'⟩, ih linked fun q member => same q (List.mem_cons_of_mem p member)⟩

/-- Links are read off the listed cells only. -/
theorem congr {list : List P} (linked : Linked h before list after)
    (same : ∀ p ∈ list, h' p = h p) : Linked h' before list after :=
  linked.congr_links fun p member => by rw [linksAt, linksAt, same p member]

/-- A write to a cell that is not listed leaves the list. -/
theorem update [DecidableEq P] {list : List P} {p : P} (linked : Linked h before list after)
    (outside : p ∉ list) (cell : Option (Cell P α)) :
    Linked (Function.update h p cell) before list after := by
  refine linked.congr fun q member => Function.update_of_ne ?_ _ _
  rintro rfl
  exact outside member

/-- The links of one of the cells. -/
theorem cell {first second : List P} {p : P}
    (linked : Linked h before (first ++ p :: second) after) :
    ∃ data, h p = some ⟨first.getLast?.or before, second.head?.or after, data⟩ := by
  rw [append_iff, Linked] at linked
  exact linked.2.1

/-- The links of one of the cells of a whole list. -/
theorem cell_of_whole {first second : List P} {p : P}
    (linked : Linked h none (first ++ p :: second) none) :
    ∃ data, h p = some ⟨first.getLast?, second.head?, data⟩ := by
  obtain ⟨data, cell⟩ := linked.cell
  exact ⟨data, by rw [cell, Option.or_none, Option.or_none]⟩

/-- Following `next` visits the cells in order. -/
theorem walk_next {list : List P} (linked : Linked h before list none) (bound : ℕ)
    (enough : list.length ≤ bound) : h.walk Cell.next bound list.head? = some list := by
  induction list generalizing before bound with
  | nil => cases bound <;> rfl
  | cons p rest ih =>
      cases bound with
      | zero => cases enough
      | succ bound =>
          obtain ⟨⟨data, cell⟩, linked⟩ := linked
          have visited := ih linked bound (Nat.le_of_succ_le_succ enough)
          rw [Option.or_none] at cell
          simp only [List.head?_cons, walk, cell, Option.bind_eq_bind, Option.bind_some, visited,
            Option.pure_def]

/-- Following `prev` visits them in the opposite order. -/
theorem walk_prev {list : List P} (linked : Linked h none list after) (bound : ℕ)
    (enough : list.length ≤ bound) :
    h.walk Cell.prev bound list.getLast? = some list.reverse := by
  induction bound generalizing list after with
  | zero =>
      obtain rfl := List.eq_nil_of_length_eq_zero (Nat.le_zero.mp enough)
      rfl
  | succ bound ih =>
      rcases List.eq_nil_or_concat list with rfl | ⟨front, p, rfl⟩
      · rfl
      · rw [List.concat_eq_append] at linked enough ⊢
        obtain ⟨data, cell⟩ := linked.cell
        rw [Option.or_none] at cell
        have shorter : front.length ≤ bound := by simpa using enough
        have visited := ih ((append_iff front [p]).mp linked).1 shorter
        rw [List.getLast?_append, List.getLast?_singleton, Option.some_or]
        simp only [walk, cell, Option.bind_eq_bind, Option.bind_some, visited, Option.pure_def,
          List.reverse_append, List.reverse_singleton, List.singleton_append]

/-- Searching along `next` finds the first cell that passes the test, within a bound that
covers the list. -/
theorem search_eq {list : List P} (linked : Linked h before list none) (test : α → Bool)
    (bound : ℕ) (enough : list.length ≤ bound) :
    h.search test bound list.head? = some (list.find? fun p => (h.dataAt p).any test) := by
  induction list generalizing before bound with
  | nil => cases bound <;> rfl
  | cons p rest ih =>
      cases bound with
      | zero => cases enough
      | succ bound =>
          obtain ⟨⟨data, cell⟩, linked⟩ := linked
          have rest := ih linked bound (Nat.le_of_succ_le_succ enough)
          rw [Option.or_none] at cell
          have passes : (h.dataAt p).any test = test data := by rw [dataAt, cell]; rfl
          simp only [List.head?_cons, search, cell, Option.bind_eq_bind, Option.bind_some,
            List.find?_cons, passes, rest, Option.pure_def]
          cases test data <;> rfl

variable [DecidableEq P]

/-- Let the last of some linked cells be followed by another one: this joins two lists. -/
theorem setNext_getLast {list : List P} (linked : Linked h before list after)
    (distinct : list.Nodup) (next : Option P) :
    ∃ h', h.setNext list.getLast? next = some h' ∧ Linked h' before list next ∧
      Relinks h h' list := by
  rcases List.eq_nil_or_concat list with rfl | ⟨front, p, rfl⟩
  · exact ⟨h, rfl, trivial, .refl h _⟩
  · rw [List.concat_eq_append] at linked distinct ⊢
    obtain ⟨data, cell⟩ := linked.cell
    rw [List.getLast?_append, List.getLast?_singleton, Option.some_or]
    simp only [setNext, write, cell, Option.bind_eq_bind, Option.bind_some, Option.pure_def]
    refine ⟨_, rfl, ?_, .update (List.mem_append_right _ (List.mem_singleton_self p)) cell rfl⟩
    rw [append_iff] at linked ⊢
    have fresh : p ∉ front := fun member =>
      List.disjoint_of_nodup_append distinct member (List.mem_singleton_self p)
    refine ⟨linked.1.update fresh _, ⟨data, ?_⟩, trivial⟩
    rw [Function.update_self, List.head?_nil, Option.none_or]

/-- Let the first of some linked cells be preceded by another one. -/
theorem setPrev_head {list : List P} (linked : Linked h before list after)
    (distinct : list.Nodup) (prev : Option P) :
    ∃ h', h.setPrev list.head? prev = some h' ∧ Linked h' prev list after ∧
      Relinks h h' list := by
  cases list with
  | nil => exact ⟨h, rfl, trivial, .refl h _⟩
  | cons p rest =>
      obtain ⟨⟨data, cell⟩, linked⟩ := linked
      rw [List.head?_cons]
      simp only [setPrev, write, cell, Option.bind_eq_bind, Option.bind_some, Option.pure_def]
      refine ⟨_, rfl, ⟨⟨data, Function.update_self ..⟩, ?_⟩, .update List.mem_cons_self cell rfl⟩
      exact linked.update (List.nodup_cons.mp distinct).1 _

/-- Two lists with no cell in common are joined by linking the last cell of the one and the first
cell of the other. -/
theorem join {first second : List P} {next prev : Option P} (linkedFirst : Linked h none first next)
    (linkedSecond : Linked h prev second none) (distinct : (first ++ second).Nodup) :
    ∃ h₁ h₂, h.setNext first.getLast? second.head? = some h₁ ∧
      h₁.setPrev second.head? first.getLast? = some h₂ ∧ Linked h₂ none (first ++ second) none ∧
      Relinks h h₁ first ∧ Relinks h h₂ (first ++ second) := by
  obtain ⟨distinctFirst, distinctSecond, apart⟩ := List.nodup_append.mp distinct
  have separate : ∀ q ∈ second, q ∉ first := fun q member inFirst => apart q inFirst q member rfl
  obtain ⟨h₁, assigned₁, linked₁, relinks₁⟩ :=
    linkedFirst.setNext_getLast distinctFirst second.head?
  have second₁ : Linked h₁ prev second none :=
    linkedSecond.congr fun q member => relinks₁.others q (separate q member)
  obtain ⟨h₂, assigned₂, linked₂, relinks₂⟩ := second₁.setPrev_head distinctSecond first.getLast?
  refine ⟨h₁, h₂, assigned₁, assigned₂, ?_, relinks₁, relinks₁.trans relinks₂⟩
  rw [append_iff, Option.or_none, Option.or_none]
  refine ⟨linked₁.congr fun q member => relinks₂.others q fun inSecond => ?_, linked₂⟩
  exact separate q inSecond member

/-- Taking a cell out links the ones before it to the ones after it, and leaves its own
links dangling. -/
theorem unlink_mem {first second : List P} {p : P}
    (linked : Linked h none (first ++ p :: second) none)
    (distinct : (first ++ p :: second).Nodup) :
    ∃ h', h.unlink p = some h' ∧ Linked h' none (first ++ second) none ∧ h' p = h p ∧
      Relinks h h' (first ++ second) := by
  obtain ⟨data, cell⟩ := linked.cell_of_whole
  rw [append_iff, Linked, Option.or_none, Option.or_none] at linked
  obtain ⟨linkedFirst, -, linkedSecond⟩ := linked
  obtain ⟨fresh, rest⟩ := List.nodup_cons.mp (List.nodup_middle.mp distinct)
  obtain ⟨h₁, h₂, assigned₁, assigned₂, linked', relinks₁, relinks⟩ :=
    linkedFirst.join linkedSecond rest
  have cell₁ : h₁ p = h p := relinks₁.others p fun member => fresh (List.mem_append_left _ member)
  refine ⟨h₂, ?_, linked', relinks.others p fresh, relinks⟩
  simp only [unlink, cell, Option.bind_eq_bind, Option.bind_some, assigned₁, cell₁, assigned₂]

/-- Linking the neighbours of a cell a second time changes nothing, since its own links
still show them. -/
theorem unlink_again {first second : List P} {p : P} {data : α}
    (linked : Linked h none (first ++ second) none)
    (cell : h p = some ⟨first.getLast?, second.head?, data⟩) : h.unlink p = some h := by
  have forward : h.setNext first.getLast? second.head? = some h := by
    rcases List.eq_nil_or_concat first with rfl | ⟨front, q, rfl⟩
    · rfl
    · rw [List.concat_eq_append, List.append_assoc, List.singleton_append] at linked
      obtain ⟨data, left⟩ := linked.cell_of_whole
      simp only [List.concat_eq_append, List.getLast?_append, List.getLast?_singleton,
        Option.some_or, setNext, write, left, Option.bind_eq_bind, Option.bind_some,
        Option.pure_def,
        Option.some.injEq]
      rw [← left, Function.update_eq_self]
  have backward : h.setPrev second.head? first.getLast? = some h := by
    cases second with
    | nil => rfl
    | cons q rest =>
        obtain ⟨data, right⟩ := linked.cell_of_whole
        simp only [List.head?_cons, setPrev, write, right, Option.bind_eq_bind, Option.bind_some,
          Option.pure_def, Option.some.injEq]
        rw [← right, Function.update_eq_self]
  simp only [unlink, cell, Option.bind_eq_bind, Option.bind_some, forward, backward]

/-- Linking a cell behind the last one. -/
theorem link_last {list : List P} {p : P} {data : α} (linked : Linked h none list none)
    (distinct : list.Nodup) (fresh : p ∉ list) (cell : h p = some ⟨list.getLast?, none, data⟩) :
    ∃ h', h.setNext list.getLast? (some p) = some h' ∧ Linked h' none (list ++ [p]) none ∧
      Relinks h h' list := by
  obtain ⟨h', assigned, linked', relinks⟩ := linked.setNext_getLast distinct (some p)
  refine ⟨h', assigned, ?_, relinks⟩
  rw [append_iff, Option.or_none, Option.or_none]
  refine ⟨linked', ⟨data, ?_⟩, trivial⟩
  rw [relinks.others p fresh, cell, List.head?_nil, Option.none_or]

/-- Linking a cell before the first one. -/
theorem link_head {list : List P} {p : P} {data : α} (linked : Linked h none list none)
    (distinct : list.Nodup) (fresh : p ∉ list) (cell : h p = some ⟨none, list.head?, data⟩) :
    ∃ h', h.setPrev list.head? (some p) = some h' ∧ Linked h' none (p :: list) none ∧
      Relinks h h' list := by
  obtain ⟨h', assigned, linked', relinks⟩ := linked.setPrev_head distinct (some p)
  exact ⟨h', assigned, ⟨⟨data, by rw [relinks.others p fresh, cell, Option.or_none]⟩, linked'⟩,
    relinks⟩

end Linked

section Ends

variable [DecidableEq P]

/-- The first cell when one has been taken out. -/
theorem head?_unlink {first second : List P} {p : P} (distinct : (first ++ p :: second).Nodup) :
    (if some p = (first ++ p :: second).head? then second.head? else (first ++ p :: second).head?) =
      (first ++ second).head? := by
  cases first with
  | nil => simp
  | cons q rest =>
      have other : p ≠ q := by
        rintro rfl
        exact (List.nodup_cons.mp distinct).1 (List.mem_append_right _ List.mem_cons_self)
      simp [other]

/-- The last cell when one has been taken out. -/
theorem getLast?_unlink {first second : List P} {p : P}
    (distinct : (first ++ p :: second).Nodup) :
    (if some p = (first ++ p :: second).getLast? then first.getLast?
      else (first ++ p :: second).getLast?) = (first ++ second).getLast? := by
  rcases List.eq_nil_or_concat second with rfl | ⟨front, q, rfl⟩
  · simp
  · have other : p ≠ q := by
      rintro rfl
      have fresh := (List.nodup_cons.mp (List.nodup_append.mp distinct).2.1).1
      exact fresh (by simp)
    rw [List.concat_eq_append, ← List.cons_append, ← List.append_assoc, ← List.append_assoc,
      List.getLast?_append, List.getLast?_append]
    simp [other]

end Ends

end Heap

end Store

end CppRaft
