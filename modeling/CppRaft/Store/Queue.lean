import Mathlib.Data.List.Nodup
import Mathlib.Logic.Function.Basic

/-!
# Singly linked queues in a memory

Every entry points to the one behind it and the last one to nothing. An entry joins the queue by
one assignment to the entry that was last, and leaves it at the front without any.
-/

namespace CppRaft

namespace Store

/-- An entry: its link and its value. -/
structure Entry (P α : Type) where
  next : Option P
  value : α
  deriving DecidableEq, Repr

/-- A memory of entries. -/
abbrev Entries (P α : Type) : Type :=
  P → Option (Entry P α)

namespace Entries

variable {P α : Type}

/-- Follow the links up to their end, at most `bound` times. -/
def walk (h : Entries P α) : (bound : ℕ) → Option P → Option (List P)
  | _, none => some []
  | 0, some _ => none
  | bound + 1, some p => do
      let entry ← h p
      let rest ← walk h bound entry.next
      pure (p :: rest)

section Write

variable [DecidableEq P]

/-- Allocate an entry where there is none. -/
def alloc (h : Entries P α) (p : P) (entry : Entry P α) : Option (Entries P α) :=
  if (h p).isSome then none else some (Function.update h p (some entry))

/-- Write through a pointer. -/
def write (h : Entries P α) (p : P) (change : Entry P α → Entry P α) : Option (Entries P α) := do
  let entry ← h p
  pure (Function.update h p (some (change entry)))

/-- Let the entry behind a pointer be followed by `next`; the null pointer has none. -/
def assignNext (h : Entries P α) (p next : Option P) : Option (Entries P α) := do
  let p ← p
  h.write p fun entry => { entry with next := next }

end Write

/-- The pointers are linked in this order, with these values, and nothing follows the last. -/
def Queued (h : Entries P α) : List (P × α) → Prop
  | [] => True
  | (p, value) :: rest => h p = some ⟨rest.head?.map Prod.fst, value⟩ ∧ Queued h rest

namespace Queued

variable {h h' : Entries P α} {queue : List (P × α)}

/-- A queue is read off its own entries. -/
theorem congr (queued : Queued h queue) (same : ∀ p ∈ queue.map Prod.fst, h' p = h p) :
    Queued h' queue := by
  induction queue with
  | nil => trivial
  | cons e rest ih =>
      rw [List.map_cons, List.forall_mem_cons] at same
      exact ⟨same.1.trans queued.1, ih queued.2 same.2⟩

/-- Every element of a queue has its cell. -/
theorem entry (queued : Queued h queue) {e : P × α} (member : e ∈ queue) :
    ∃ next, h e.1 = some ⟨next, e.2⟩ := by
  induction queue with
  | nil => cases member
  | cons e' rest ih =>
      rcases List.mem_cons.mp member with rfl | later
      · exact ⟨_, queued.1⟩
      · exact ih queued.2 later

/-- Following the links visits the queue in order. -/
theorem walk_eq (queued : Queued h queue) {bound : ℕ} (enough : queue.length ≤ bound) :
    h.walk bound (queue.head?.map Prod.fst) = some (queue.map Prod.fst) := by
  induction queue generalizing bound with
  | nil => cases bound <;> rfl
  | cons e rest ih =>
      cases bound with
      | zero => cases enough
      | succ bound =>
          have following := ih queued.2 (Nat.le_of_succ_le_succ enough)
          simp only [List.head?_cons, Option.map_some, walk, queued.1, following,
            Option.bind_eq_bind, Option.bind_some, Option.pure_def, List.map_cons]

/-- A new entry behind the last one, which gets it as its successor; an empty queue gets it
as its first. -/
theorem enqueue [DecidableEq P] (queued : Queued h queue) (nonempty : queue ≠ []) {p : P}
    {value : α} (here : h p = some ⟨none, value⟩)
    (distinct : (queue.map Prod.fst ++ [p]).Nodup) :
    ∃ h', h.assignNext (queue.getLast?.map Prod.fst) (some p) = some h' ∧
      Queued h' (queue ++ [(p, value)]) ∧ ∀ q, q ∉ queue.map Prod.fst → h' q = h q := by
  induction queue with
  | nil => exact absurd rfl nonempty
  | cons e rest ih =>
      rw [List.map_cons, List.cons_append, List.nodup_cons] at distinct
      cases rest with
      | nil =>
          have other : p ≠ e.1 := fun same => distinct.1 (same ▸ List.mem_singleton_self _)
          refine ⟨Function.update h e.1 (some ⟨some p, e.2⟩), ?_, ⟨?_, ?_, trivial⟩,
            fun q outside => ?_⟩
          · simp only [List.getLast?_singleton, Option.map_some, assignNext, write, queued.1,
              Option.bind_eq_bind, Option.bind_some, Option.pure_def]
          · exact Function.update_self ..
          · exact (Function.update_of_ne other _ _).trans here
          · refine Function.update_of_ne ?_ _ _
            rintro rfl
            exact outside (List.mem_singleton_self _)
      | cons e' rest =>
          obtain ⟨h', assigned, queued', elsewhere⟩ :=
            ih queued.2 (List.cons_ne_nil e' rest) distinct.2
          refine ⟨h', ?_, ⟨?_, queued'⟩, fun q outside => elsewhere q fun member => ?_⟩
          · rw [List.getLast?_cons_cons]
            exact assigned
          · refine (elsewhere e.1 fun member => distinct.1 ?_).trans queued.1
            exact List.mem_append_left _ member
          · exact outside (List.mem_cons_of_mem _ member)

end Queued

end Entries

end Store

end CppRaft
