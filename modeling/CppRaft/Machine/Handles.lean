import Mathlib.Data.List.Nodup
import Mathlib.Logic.Function.Basic
import CppRaft.Machine.Effect
import CppRaft.Machine.Ownership

/-!
# Handles in shared variables

A system opens and closes handles. Threads have them in variables that they share, and in
lists where they wait, and work on the variables one statement after the other; between two
statements of one thread there may be any number of statements of others.

A thread that closes a handle, or copies it to another variable, has not yet written
anything else to the variable. What the variable has is spent, and a second `close` of it
may hit a handle that somebody else got in the meantime. A program is safe if it does not
do this when it runs alone. Threads that run safe programs over different variables keep
every open handle in exactly one place.
-/

namespace CppRaft

namespace Machine

variable {Cell Bag Handle Thread : Type}

/-- The open handles, what every variable has, and the lists of handles that wait. Two things are
recorded that no statement reads: which variables are spent, and the handles that went missing
because something else was written to the only variable that had them. -/
structure Handles (Cell Bag Handle : Type) where
  isOpen : Handle → Bool
  value : Cell → Option Handle
  spent : Cell → Bool
  bags : Bag → List Handle
  leaked : List Handle

/-- The places where a handle can be. -/
inductive Keeper (Cell Bag : Type) where
  | cell (cell : Cell)
  | bag (bag : Bag)
  | leak
  deriving DecidableEq

/-- What a thread does with variables: it looks at one, closes what one has, empties one, lets the
system write a new handle to one, or copies one to another. -/
inductive Program (Cell Handle : Type) where
  | done
  | test (cell : Cell) (accepts : Option Handle → Bool) (yes no : Program Cell Handle)
  | close (cell : Cell) (next : Program Cell Handle)
  | reset (cell : Cell) (next : Program Cell Handle)
  | create (cell : Cell) (next : Program Cell Handle)
  | copy (source target : Cell) (next : Program Cell Handle)

/-- A program that a thread runs, and the variables it may use. -/
structure Task (Cell Handle : Type) where
  cells : List Cell
  program : Program Cell Handle

namespace Handles

variable (s : Handles Cell Bag Handle)

/-- The handle of a variable that is not spent. -/
def held (cell : Cell) : Option Handle :=
  if s.spent cell then none else s.value cell

/-- A place has a handle. -/
def Holds : Keeper Cell Bag → Handle → Prop
  | .cell cell, handle => s.held cell = some handle
  | .bag bag, handle => handle ∈ s.bags bag
  | .leak, handle => handle ∈ s.leaked

/-- Every open handle is in exactly one place, and no place has a closed one. -/
structure Kept : Prop where
  exclusive : Exclusive s.Holds fun handle => s.isOpen handle = true
  distinct : ∀ bag, (s.bags bag).Nodup

variable [DecidableEq Cell] [DecidableEq Handle]

/-- Something is written to a variable. -/
def write (cell : Cell) (value : Option Handle) (spent : Bool) : Handles Cell Bag Handle :=
  { s with
    value := Function.update s.value cell value
    spent := Function.update s.spent cell spent
    leaked := (s.held cell).toList ++ s.leaked }

/-- The system opens a handle. -/
def opened (handle : Handle) : Handles Cell Bag Handle :=
  { s with isOpen := Function.update s.isOpen handle true }

/-- What a variable has is closed. -/
def close (cell : Cell) : Effect (Handles Cell Bag Handle) Handle where
  state := { s with
    isOpen := fun handle => s.isOpen handle && decide (some handle ≠ s.value cell)
    spent := Function.update s.spent cell true }
  emitted := (s.value cell).toList

/-- The system writes a handle that is not open, or none, to a variable. -/
def create (cell : Cell) : Option Handle → Option (Handles Cell Bag Handle)
  | none => some (s.write cell none false)
  | some handle =>
      if s.isOpen handle then none else some ((s.opened handle).write cell (some handle) false)

/-- One variable is copied to another. -/
def copy (source target : Cell) : Handles Cell Bag Handle :=
  let written := s.write target (s.value source) (s.spent source)
  { written with spent := Function.update written.spent source true }

/-- A variable that nobody uses has something else. -/
def put (cell : Cell) (value : Option Handle) : Handles Cell Bag Handle :=
  { s with value := Function.update s.value cell value }

omit [DecidableEq Cell] [DecidableEq Handle]

variable [DecidableEq Bag] (bag : Bag)

/-- A handle is appended to a list. -/
def push (handle : Handle) : Handles Cell Bag Handle :=
  { s with bags := Function.update s.bags bag (s.bags bag ++ [handle]) }

/-- The first handle of a list is taken away. -/
def pop : Handles Cell Bag Handle :=
  { s with bags := Function.update s.bags bag (s.bags bag).tail }

end Handles

/-- The program has ended. -/
def Program.isDone : Program Cell Handle → Bool
  | .done => true
  | _ => false

/-- One statement, with what the system returns if it is asked for a handle. -/
def Program.step [DecidableEq Cell] [DecidableEq Handle] (new : Option Handle)
    (s : Handles Cell Bag Handle) : Program Cell Handle →
    Option (Program Cell Handle × Effect (Handles Cell Bag Handle) Handle)
  | .done => none
  | .test cell accepts yes no => some (if accepts (s.value cell) then yes else no, .done s)
  | .close cell next => some (next, s.close cell)
  | .reset cell next => some (next, .done (s.write cell none false))
  | .create cell next => (s.create cell new).map fun s => (next, .done s)
  | .copy source target next => some (next, .done (s.copy source target))

/-- A program that is done has nothing left. -/
theorem Program.eq_done (program : Program Cell Handle) (done : program.isDone = true) :
    program = .done := by
  cases program with
  | done => rfl
  | _ => cases done

namespace Handles

variable {s : Handles Cell Bag Handle} {cell : Cell} {handle : Handle}

/-- A cell that is not spent owns the handle in it. -/
theorem held_of_not_spent (unspent : s.spent cell = false) : s.held cell = s.value cell := by
  rw [held, unspent]
  rfl

/-- What is held is open. -/
theorem Kept.isOpen (kept : s.Kept) {p : Keeper Cell Bag} (holds : s.Holds p handle) :
    s.isOpen handle = true :=
  (kept.exclusive.live_iff handle).mpr ⟨p, holds⟩

/-- Every open handle is in one variable, if the variables have different handles and the
bags are empty. -/
theorem kept_of_injective {value : Cell → Option Handle} {isOpen : Handle → Bool}
    (injective : ∀ {cell other handle}, value cell = some handle → value other = some handle →
      cell = other)
    (live : ∀ handle, isOpen handle = true ↔ ∃ cell, value cell = some handle) :
    Kept (⟨isOpen, value, fun _ => false, fun _ => [], []⟩ : Handles Cell Bag Handle) := by
  refine ⟨⟨fun {p q handle} first second => ?_, fun handle => ?_⟩, fun _ => List.nodup_nil⟩
  · cases p with
    | cell cell =>
        cases q with
        | cell other => rw [injective first second]
        | bag bag => cases second
        | leak => cases second
    | bag bag => cases first
    | leak => cases first
  · rw [live]
    constructor
    · rintro ⟨cell, has⟩
      exact ⟨.cell cell, has⟩
    · rintro ⟨p, holds⟩
      cases p with
      | cell cell => exact ⟨cell, holds⟩
      | bag bag => cases holds
      | leak => cases holds

/-- Only what the variables record changes. -/
theorem Kept.congr {s' : Handles Cell Bag Handle} (kept : s.Kept)
    (held : ∀ cell, s'.held cell = s.held cell)
    (isOpen : ∀ handle, s'.isOpen handle = s.isOpen handle) (bags : s'.bags = s.bags)
    (leaked : s'.leaked = s.leaked) : s'.Kept := by
  refine ⟨kept.exclusive.congr (fun place handle => ?_) fun handle => by rw [isOpen],
    bags ▸ kept.distinct⟩
  cases place with
  | cell cell => rw [Holds, held, Holds]
  | bag bag => rw [Holds, bags, Holds]
  | leak => rw [Holds, leaked, Holds]

/-- A variable has what it holds and nothing else. -/
theorem holds_cell_iff (had : s.held cell = some handle) {place : Keeper Cell Bag}
    {other : Handle} :
    s.Holds place other ∧ place ≠ .cell cell ↔
      s.Holds place other ∧ ¬(place = .cell cell ∧ other = handle) := by
  refine and_congr_right fun holds => not_congr ⟨?_, And.left⟩
  rintro rfl
  exact ⟨rfl, Option.some.inj (holds.symm.trans had)⟩

/-- A cell that owns nothing can be left out of account. -/
theorem holds_ne_cell_iff (had : s.held cell = none) {place : Keeper Cell Bag} :
    s.Holds place handle ∧ place ≠ .cell cell ↔ s.Holds place handle := by
  refine and_iff_left_of_imp fun holds => ?_
  rintro rfl
  cases had.symm.trans holds

section Bags

variable [DecidableEq Bag] {bag : Bag} {p : Keeper Cell Bag} {other : Handle} {rest : List Handle}

/-- Putting a handle into a bag leaves the cells alone. -/
theorem held_push (cell : Cell) : (s.push bag handle).held cell = s.held cell :=
  rfl

/-- So does taking one out. -/
theorem held_pop (cell : Cell) : (s.pop bag).held cell = s.held cell :=
  rfl

/-- Putting a handle into a bag adds one keeper. -/
theorem holds_push :
    (s.push bag handle).Holds p other ↔ s.Holds p other ∨ (p = .bag bag ∧ other = handle) := by
  cases p with
  | cell cell => simp [Holds, held_push]
  | bag bag' =>
      by_cases same : bag' = bag
      · simp [Holds, push, same]
      · simp [Holds, push, same]
  | leak => simp [Holds, push]

/-- Taking a handle out of a bag takes one keeper away: it was in there once. -/
theorem Kept.holds_pop (kept : s.Kept) (front : s.bags bag = handle :: rest) :
    (s.pop bag).Holds p other ↔ s.Holds p other ∧ ¬(p = .bag bag ∧ other = handle) := by
  cases p with
  | cell cell => simp [Holds, held_pop]
  | bag bag' =>
      by_cases same : bag' = bag
      · subst same
        have distinct := kept.distinct bag'
        rw [front, List.nodup_cons] at distinct
        simp only [Holds, pop, Function.update_self, front, List.tail_cons, List.mem_cons, true_and]
        constructor
        · intro later
          exact ⟨Or.inr later, fun first => distinct.1 (first ▸ later)⟩
        · rintro ⟨first | later, different⟩
          · exact absurd first different
          · exact later
      · simp [Holds, pop, same]
  | leak => simp [Holds, pop]

/-- A bag that gets a new handle has none twice. -/
theorem distinct_push (distinct : ∀ bag, (s.bags bag).Nodup) (new : handle ∉ s.bags bag)
    (bag' : Bag) : ((s.push bag handle).bags bag').Nodup := by
  by_cases same : bag' = bag
  · subst same
    simp only [push, Function.update_self]
    exact List.nodup_append_comm.mp (List.nodup_cons.mpr ⟨new, distinct bag'⟩)
  · simp only [push, Function.update_of_ne same]
    exact distinct bag'

/-- A bag that loses a handle has none twice. -/
theorem distinct_pop (distinct : ∀ bag, (s.bags bag).Nodup) (bag' : Bag) :
    ((s.pop bag).bags bag').Nodup := by
  by_cases same : bag' = bag
  · subst same
    simp only [pop, Function.update_self]
    exact (distinct bag').sublist (List.tail_sublist _)
  · simp only [pop, Function.update_of_ne same]
    exact distinct bag'

/-- The system puts a new handle into a list. -/
theorem Kept.deliver [DecidableEq Handle] (kept : s.Kept) (unused : s.isOpen handle = false) :
    ((s.opened handle).push bag handle).Kept := by
  have new {p : Keeper Cell Bag} : ¬s.Holds p handle := fun holds => by
    cases unused.symm.trans (kept.isOpen holds)
  have closed : ¬s.isOpen handle = true := Bool.eq_false_iff.mp unused
  refine ⟨kept.exclusive.acquire (q := .bag bag) closed (fun p other => ?_) fun other => ?_,
    distinct_push kept.distinct (new (p := .bag bag))⟩
  · rw [holds_push]
    have shape : (s.opened handle).Holds p other ↔ s.Holds p other := by cases p <;> rfl
    rw [shape]
  · by_cases same : other = handle <;> simp [opened, push, same]

/-- The first handle of a list goes to another. -/
theorem Kept.pass (kept : s.Kept) (front : s.bags bag = handle :: rest) {bag' : Bag}
    (different : bag' ≠ bag) : ((s.pop bag).push bag' handle).Kept := by
  have holds : s.Holds (.bag bag) handle := by
    rw [Holds, front]
    exact List.mem_cons_self
  refine ⟨kept.exclusive.move (q := .bag bag') holds fun p other => ?_,
    distinct_push (distinct_pop kept.distinct) fun member => ?_⟩
  · rw [holds_push, kept.holds_pop front]
  · have holds' : s.Holds (.bag bag') handle := by simpa [Holds, pop, different] using member
    exact different (Keeper.bag.inj (kept.exclusive.one holds' holds))

end Bags

variable [DecidableEq Cell]

/-- Writing a cell changes what that cell owns. -/
theorem held_write (value : Option Handle) (spent : Bool) (other : Cell) :
    (s.write cell value spent).held other =
      if other = cell then (if spent then none else value) else s.held other := by
  by_cases same : other = cell
  · simp [held, write, same]
  · simp [held, write, same]

/-- Writing a cell leaks the handle that it owned: from then on it belongs to nobody. The
operations below are the ways to avoid that. -/
theorem holds_write {value : Option Handle} {spent : Bool} {place : Keeper Cell Bag} :
    (s.write cell value spent).Holds place handle ↔
      (s.Holds place handle ∧ place ≠ .cell cell) ∨
        (place = .cell cell ∧ spent = false ∧ value = some handle) ∨
        (place = .leak ∧ s.held cell = some handle) := by
  cases place with
  | cell other =>
      rw [Holds, held_write, Holds]
      by_cases same : other = cell
      · cases spent <;> simp [same]
      · simp [same]
  | bag bag => simp [Holds, write]
  | leak => simp [Holds, write, or_comm]

/-- A variable is emptied. -/
theorem Kept.reset (kept : s.Kept) (cell : Cell) : (s.write cell none false).Kept := by
  refine ⟨?_, kept.distinct⟩
  cases had : s.held cell with
  | none =>
      refine kept.exclusive.congr (fun place handle => ?_) fun _ => Iff.rfl
      rw [holds_write, had, holds_ne_cell_iff had]
      simp
  | some handle =>
      refine kept.exclusive.move (p := .cell cell) (q := .leak) had fun place other => ?_
      rw [holds_write, had, holds_cell_iff had]
      simp [eq_comm]

/-- A variable that holds nothing gets something. -/
theorem holds_write_of_held_none (had : s.held cell = none) {value : Option Handle} {spent : Bool}
    {place : Keeper Cell Bag} :
    (s.write cell value spent).Holds place handle ↔
      s.Holds place handle ∨ (place = .cell cell ∧ spent = false ∧ value = some handle) := by
  rw [holds_write, had, holds_ne_cell_iff had]
  simp

/-- To write is to empty first. -/
theorem write_write (value : Option Handle) (spent : Bool) :
    (s.write cell none false).write cell value spent = s.write cell value spent := by
  simp [write, held]

/-- A variable is copied to another, which owns the handle from then on; the source is
spent: it still has the number, but must not close it. What the target owned before is
leaked. -/
theorem Kept.copy (kept : s.Kept) {source target : Cell} (different : source ≠ target) :
    (s.copy source target).Kept := by
  have empty := kept.reset target
  have held : (s.write target none false).held source = s.held source := by
    rw [held_write, if_neg different]
  have holds (place : Keeper Cell Bag) (handle : Handle) :
      (s.copy source target).Holds place handle ↔
        ((s.write target none false).Holds place handle ∧ place ≠ .cell source) ∨
          (place = .cell target ∧ s.held source = some handle) := by
    cases place with
    | cell other =>
        by_cases same : other = source
        · simp [Holds, Handles.held, Handles.copy, same, different]
        · by_cases same' : other = target <;>
            simp [Holds, Handles.held, Handles.copy, write, same, same', Ne.symm different]
    | bag bag => simp [Holds, Handles.copy, write]
    | leak => simp [Holds, Handles.copy, write]
  refine ⟨?_, kept.distinct⟩
  cases had : s.held source with
  | none =>
      refine empty.exclusive.congr (fun place handle => ?_) fun _ => Iff.rfl
      rw [holds, had, holds_ne_cell_iff (held.trans had)]
      simp
  | some handle =>
      refine empty.exclusive.move (p := .cell source) (q := .cell target) (held.trans had)
        fun place other => ?_
      rw [holds, had, holds_cell_iff (held.trans had)]
      simp [eq_comm]

/-- Putting a value into a cell that owns nothing makes the cell its keeper. -/
theorem holds_put (unspent : s.spent cell = false) {value : Option Handle}
    {p : Keeper Cell Bag} {other : Handle} :
    (s.put cell value).Holds p other ↔
      (s.Holds p other ∧ p ≠ .cell cell) ∨ (p = .cell cell ∧ value = some other) := by
  cases p with
  | cell cell' =>
      by_cases same : cell' = cell
      · simp [Holds, put, held, same, unspent]
      · simp [Holds, put, held, same]
  | bag bag => simp [Holds, put]
  | leak => simp [Holds, put]

/-- The first handle of a list goes to a variable that has none. -/
theorem Kept.collect [DecidableEq Bag] {bag : Bag} {rest : List Handle} (kept : s.Kept)
    (front : s.bags bag = handle :: rest)
    (unspent : s.spent cell = false) (empty : s.value cell = none) :
    ((s.pop bag).put cell (some handle)).Kept := by
  have holds : s.Holds (.bag bag) handle := by
    rw [Holds, front]
    exact List.mem_cons_self
  have nothing : (s.pop bag).held cell = none := (held_of_not_spent unspent).trans empty
  refine ⟨kept.exclusive.move (q := .cell cell) holds fun p other => ?_, distinct_pop kept.distinct⟩
  rw [holds_put (s := s.pop bag) unspent, holds_ne_cell_iff nothing, kept.holds_pop front]
  simp [eq_comm]

/-- The handle of a variable goes to a list. -/
theorem Kept.discard [DecidableEq Bag] {bag : Bag} (kept : s.Kept)
    (unspent : s.spent cell = false) (had : s.value cell = some handle) :
    ((s.put cell none).push bag handle).Kept := by
  have holds : s.held cell = some handle := (held_of_not_spent unspent).trans had
  refine ⟨kept.exclusive.move (p := .cell cell) (q := .bag bag) holds fun p other => ?_,
    distinct_push kept.distinct fun member => ?_⟩
  · rw [holds_push, holds_put unspent, holds_cell_iff holds]
    simp
  · cases kept.exclusive.one (p := .cell cell) (q := .bag bag) holds member

variable [DecidableEq Handle]

/-- The system writes a new handle to a variable. What the variable owned before is leaked. -/
theorem Kept.create {s' : Handles Cell Bag Handle} (kept : s.Kept) {new : Option Handle}
    (created : s.create cell new = some s') : s'.Kept := by
  cases new with
  | none =>
      cases created
      exact kept.reset cell
  | some handle =>
      obtain ⟨unused, ⟨⟩⟩ := Option.ite_none_left_eq_some.mp created
      have empty := kept.reset cell
      have closed : ¬(s.write cell none false).isOpen handle = true := unused
      refine ⟨empty.exclusive.acquire (q := .cell cell) closed (fun place other => ?_)
        fun other => ?_, kept.distinct⟩
      · have shape : ((s.opened handle).write cell (some handle) false).Holds place other ↔
            (s.write cell (some handle) false).Holds place other := by cases place <;> rfl
        rw [shape, ← write_write, holds_write_of_held_none (by simp [held, write])]
        simp [eq_comm]
      · by_cases same : other = handle <;> simp [opened, write, same]

/-- The handle of a variable that is not spent is closed. The variable is spent then, until
it is reset. -/
theorem Kept.close (kept : s.Kept) (unspent : s.value cell = none ∨ s.spent cell = false) :
    (s.close cell).state.Kept := by
  have held (other : Cell) :
      (s.close cell).state.held other = if other = cell then none else s.held other := by
    by_cases same : other = cell <;> simp [Handles.held, Handles.close, same]
  cases had : s.value cell with
  | none =>
      refine kept.congr (fun other => ?_) (fun handle => ?_) rfl rfl
      · rw [held]
        split
        · rename_i same
          simp [Handles.held, same, had]
        · rfl
      · simp [Handles.close, had]
  | some handle =>
      have fresh : s.spent cell = false := unspent.resolve_left (by simp [had])
      have holds : s.held cell = some handle := (held_of_not_spent fresh).trans had
      refine ⟨kept.exclusive.release (p := .cell cell) holds (fun place other => ?_)
        fun other => ?_, kept.distinct⟩
      · rw [← holds_cell_iff holds]
        cases place with
        | cell other' =>
            rw [Holds, held, Holds]
            by_cases same : other' = cell <;> simp [same]
        | bag bag => simp [Holds, Handles.close]
        | leak => simp [Holds, Handles.close]
      · simp [Handles.close, had]

end Handles

/-- What the programs agree on: the variables that are empty when no program uses them, and the
handles that nobody misses. -/
structure Usage (Cell Handle : Type) where
  temporary : Cell → Prop
  waste : Handle → Prop

section Program

variable (usage : Usage Cell Handle)

/-- A variable has nothing that would be missed. -/
def Replaceable (value : Cell → Option Handle) (spent : Cell → Bool) (cell : Cell) : Prop :=
  ∀ handle, spent cell = false → value cell = some handle → usage.waste handle

/-- A variable that no program uses is not spent, and a temporary one is empty. -/
def Rested (value : Cell → Option Handle) (spent : Cell → Bool) (cell : Cell) : Prop :=
  spent cell = false ∧ (usage.temporary cell → value cell = none)

variable [DecidableEq Cell]

/-- A program that runs alone uses these variables only, closes nothing that is spent, writes to no
variable that has a handle, unless it is waste, and leaves its variables at rest. -/
def Program.Safe (cells : List Cell) :
    Program Cell Handle → (Cell → Option Handle) → (Cell → Bool) → Prop
  | .done, value, spent => ∀ cell ∈ cells, Rested usage value spent cell
  | .test cell accepts yes no, value, spent =>
      cell ∈ cells ∧
        if accepts (value cell) then yes.Safe cells value spent
        else no.Safe cells value spent
  | .close cell next, value, spent =>
      cell ∈ cells ∧ (value cell = none ∨ spent cell = false) ∧
        next.Safe cells value (Function.update spent cell true)
  | .reset cell next, value, spent =>
      cell ∈ cells ∧ Replaceable usage value spent cell ∧
        next.Safe cells (Function.update value cell none) (Function.update spent cell false)
  | .create cell next, value, spent =>
      cell ∈ cells ∧ Replaceable usage value spent cell ∧ ∀ new,
        next.Safe cells (Function.update value cell new) (Function.update spent cell false)
  | .copy source target next, value, spent =>
      (source ∈ cells ∧ target ∈ cells ∧ source ≠ target) ∧ Replaceable usage value spent target ∧
        next.Safe cells (Function.update value target (value source))
          (Function.update (Function.update spent target (spent source)) source true)

variable {usage} {cells : List Cell}

/-- Functions that agree on the cells of a call still do after the same write. -/
theorem update_agree {γ : Type} {f g : Cell → γ} (agree : ∀ cell ∈ cells, g cell = f cell)
    {cell : Cell} (x : γ) :
    ∀ other ∈ cells, Function.update g cell x other = Function.update f cell x other := by
  intro other member
  by_cases same : other = cell
  · rw [same, Function.update_self, Function.update_self]
  · rw [Function.update_of_ne same, Function.update_of_ne same, agree other member]

omit [DecidableEq Cell] in
/-- Whether a cell may be overwritten depends on that cell. -/
theorem Replaceable.congr {value value' : Cell → Option Handle} {spent spent' : Cell → Bool}
    {cell : Cell} (before : Replaceable usage value spent cell) (same : value' cell = value cell)
    (same' : spent' cell = spent cell) : Replaceable usage value' spent' cell := by
  rw [Replaceable, same, same']
  exact before

/-- Whether a program is safe depends on its variables only, so what other threads do
elsewhere does not matter. -/
theorem Program.Safe.congr {program : Program Cell Handle} {value value' : Cell → Option Handle}
    {spent spent' : Cell → Bool} (safe : program.Safe usage cells value spent)
    (values : ∀ cell ∈ cells, value' cell = value cell)
    (spents : ∀ cell ∈ cells, spent' cell = spent cell) :
    program.Safe usage cells value' spent' := by
  induction program generalizing value value' spent spent' with
  | done =>
      intro cell member
      rw [Rested, values cell member, spents cell member]
      exact safe cell member
  | test cell accepts yes no ihYes ihNo =>
      obtain ⟨inside, branch⟩ := safe
      refine ⟨inside, ?_⟩
      rw [values cell inside]
      split
      · rw [if_pos ‹_›] at branch
        exact ihYes branch values spents
      · rw [if_neg ‹_›] at branch
        exact ihNo branch values spents
  | close cell next ih =>
      obtain ⟨inside, unspent, after⟩ := safe
      refine ⟨inside, ?_, ih after values (update_agree spents true)⟩
      rw [values cell inside, spents cell inside]
      exact unspent
  | reset cell next ih =>
      obtain ⟨inside, replaceable, after⟩ := safe
      exact ⟨inside, replaceable.congr (values cell inside) (spents cell inside),
        ih after (update_agree values none) (update_agree spents false)⟩
  | create cell next ih =>
      obtain ⟨inside, replaceable, after⟩ := safe
      exact ⟨inside, replaceable.congr (values cell inside) (spents cell inside),
        fun new => ih (after new) (update_agree values new) (update_agree spents false)⟩
  | copy source target next ih =>
      obtain ⟨⟨inside, inside', different⟩, replaceable, after⟩ := safe
      refine ⟨⟨inside, inside', different⟩,
        replaceable.congr (values target inside') (spents target inside'), ?_⟩
      rw [values source inside, spents source inside]
      exact ih after (update_agree values _) (update_agree (update_agree spents _) true)

/-- What a statement of a safe program does: every handle stays in one place, only the variables of
the program change, the rest of the program is safe, only waste goes missing, and what is closed is
open. -/
structure StaysSafe (usage : Usage Cell Handle) (cells : List Cell) (s s' : Handles Cell Bag Handle)
    (emitted : List Handle) (rest : Program Cell Handle) : Prop where
  kept : s'.Kept
  rest : rest.Safe usage cells s'.value s'.spent
  value : ∀ cell, cell ∉ cells → s'.value cell = s.value cell
  spent : ∀ cell, cell ∉ cells → s'.spent cell = s.spent cell
  leaked : ∀ handle ∈ s'.leaked, handle ∈ s.leaked ∨ usage.waste handle
  emitted : ∀ handle ∈ emitted, s.isOpen handle = true

omit [DecidableEq Cell] in
/-- What goes missing when a replaceable variable is written to is waste. -/
theorem Replaceable.leaked {s : Handles Cell Bag Handle} {cell : Cell}
    (replaceable : Replaceable usage s.value s.spent cell) :
    ∀ handle ∈ (s.held cell).toList ++ s.leaked, handle ∈ s.leaked ∨ usage.waste handle := by
  intro handle member
  rcases List.mem_append.mp member with new | old
  · obtain ⟨unspent, had⟩ := Option.ite_none_left_eq_some.mp (Option.mem_toList.mp new)
    exact Or.inr (replaceable handle (Bool.eq_false_iff.mpr unspent) had)
  · exact Or.inl old

/-- A write inside the cells of a call changes none outside. -/
theorem update_outside {γ : Type} {f : Cell → γ} {cell : Cell} (inside : cell ∈ cells) (x : γ)
    (other : Cell) (outside : other ∉ cells) : Function.update f cell x other = f other := by
  refine Function.update_of_ne ?_ _ _
  rintro rfl
  exact outside inside

variable [DecidableEq Handle]

/-- One statement of a safe program leaves the rest of it safe, closes what it says, leaks
nothing and stays within its cells. Each case is a rule of ownership for one kind of
statement. -/
theorem Program.Safe.step {program rest : Program Cell Handle} {s : Handles Cell Bag Handle}
    (safe : program.Safe usage cells s.value s.spent) (kept : s.Kept) {new : Option Handle}
    {effect : Effect (Handles Cell Bag Handle) Handle}
    (stepped : program.step new s = some (rest, effect)) :
    StaysSafe usage cells s effect.state effect.emitted rest := by
  cases program with
  | done => cases stepped
  | test cell accepts yes no =>
      cases stepped
      obtain ⟨-, branch⟩ := safe
      refine ⟨kept, ?_, fun _ _ => rfl, fun _ _ => rfl, fun _ old => Or.inl old, nofun⟩
      split <;> simp_all
  | close cell next =>
      cases stepped
      obtain ⟨inside, unspent, after⟩ := safe
      refine ⟨kept.close unspent, after, fun _ _ => rfl, update_outside inside true,
        fun _ old => Or.inl old, fun handle member => ?_⟩
      have had := Option.mem_toList.mp member
      have fresh : s.spent cell = false := unspent.resolve_left (by rw [had]; nofun)
      exact kept.isOpen (p := .cell cell) ((Handles.held_of_not_spent fresh).trans had)
  | reset cell next =>
      cases stepped
      obtain ⟨inside, replaceable, after⟩ := safe
      exact ⟨kept.reset cell, after, update_outside inside none, update_outside inside false,
        replaceable.leaked, nofun⟩
  | create cell next =>
      obtain ⟨s', created, ⟨⟩⟩ := Option.map_eq_some_iff.mp stepped
      obtain ⟨inside, replaceable, after⟩ := safe
      have kept' := kept.create created
      cases new with
      | none =>
          cases created
          exact ⟨kept', after none, update_outside inside none, update_outside inside false,
            replaceable.leaked, nofun⟩
      | some handle =>
          obtain ⟨-, ⟨⟩⟩ := Option.ite_none_left_eq_some.mp created
          exact ⟨kept', after (some handle), update_outside inside _, update_outside inside false,
            replaceable.leaked, nofun⟩
  | copy source target next =>
      cases stepped
      obtain ⟨⟨inside, inside', different⟩, replaceable, after⟩ := safe
      refine ⟨kept.copy different, after, update_outside inside' _, fun cell outside => ?_,
        replaceable.leaked, nofun⟩
      exact (update_outside inside true cell outside).trans (update_outside inside' _ cell outside)

end Program

/-- No thread runs a program that uses one of these variables. -/
def Unused (task : Thread → Option (Task Cell Handle)) (cells : List Cell) : Prop :=
  ∀ thread t, task thread = some t → ∀ cell ∈ cells, cell ∉ t.cells

/-- The handles are kept, only waste is missing, the threads run safe programs over different
variables, and all other variables are at rest. -/
structure Sound [DecidableEq Cell] (usage : Usage Cell Handle) (s : Handles Cell Bag Handle)
    (task : Thread → Option (Task Cell Handle)) : Prop where
  kept : s.Kept
  leaked : ∀ handle ∈ s.leaked, usage.waste handle
  safe : ∀ thread t, task thread = some t → t.program.Safe usage t.cells s.value s.spent
  apart : ∀ {thread other t u cell}, task thread = some t → task other = some u →
    cell ∈ t.cells → cell ∈ u.cells → thread = other
  idle : ∀ cell, Unused task [cell] → Rested usage s.value s.spent cell

namespace Sound

variable [DecidableEq Cell] {usage : Usage Cell Handle} {s s' : Handles Cell Bag Handle}
  {task : Thread → Option (Task Cell Handle)} {thread : Thread} {t : Task Cell Handle}

/-- No other thread uses the variables of a program. -/
theorem others (sound : Sound usage s task) (runs : task thread = some t) (other : Thread)
    (u : Task Cell Handle) (different : other ≠ thread) (runs' : task other = some u) (cell : Cell)
    (inside : cell ∈ t.cells) : cell ∉ u.cells :=
  fun inside' => different (sound.apart runs' runs inside' inside)

/-- Variables that no thread uses are at rest. -/
theorem rested (sound : Sound usage s task) {cells : List Cell} (unused : Unused task cells)
    (cell : Cell) (member : cell ∈ cells) : Rested usage s.value s.spent cell := by
  refine sound.idle cell fun thread t runs other single => ?_
  rw [List.mem_singleton.mp single]
  exact unused thread t runs cell member

/-- Something else happens, to variables that no thread uses: every thread goes on as
before. -/
theorem elsewhere (sound : Sound usage s task) {cells : List Cell} (unused : Unused task cells)
    (lasting : ∀ cell ∈ cells, ¬usage.temporary cell) (kept : s'.Kept)
    (leaked : s'.leaked = s.leaked)
    (value : ∀ cell, cell ∉ cells → s'.value cell = s.value cell) (spent : s'.spent = s.spent) :
    Sound usage s' task := by
  refine ⟨kept, leaked ▸ sound.leaked, fun thread t runs => ?_, sound.apart,
    fun cell free => ⟨?_, fun temporary => ?_⟩⟩
  · refine (sound.safe thread t runs).congr (fun cell inside => value cell fun member => ?_)
      fun cell _ => by rw [spent]
    exact unused thread t runs cell member inside
  · rw [spent]
    exact (sound.idle cell free).1
  · rw [value cell fun member => lasting cell member temporary]
    exact (sound.idle cell free).2 temporary

variable [DecidableEq Thread]

/-- A thread goes on with another program, or with none, over variables that no other thread uses,
and only these change. -/
theorem replace (sound : Sound usage s task) {cells : List Cell} {next : Option (Task Cell Handle)}
    (kept : s'.Kept) (leaked : ∀ handle ∈ s'.leaked, usage.waste handle)
    (value : ∀ cell, cell ∉ cells → s'.value cell = s.value cell)
    (spent : ∀ cell, cell ∉ cells → s'.spent cell = s.spent cell)
    (others : ∀ other t, other ≠ thread → task other = some t → ∀ cell ∈ cells, cell ∉ t.cells)
    (before : ∀ t, task thread = some t → ∀ cell ∈ t.cells, cell ∈ cells)
    (goesOn : ∀ t, next = some t → t.cells = cells ∧ t.program.Safe usage cells s'.value s'.spent)
    (ends : next = none → ∀ cell ∈ cells, Rested usage s'.value s'.spent cell) :
    Sound usage s' (Function.update task thread next) := by
  have cases_task {other : Thread} {t : Task Cell Handle}
      (runs : Function.update task thread next other = some t) :
      (other = thread ∧ next = some t) ∨ (other ≠ thread ∧ task other = some t) := by
    by_cases same : other = thread
    · rw [same, Function.update_self] at runs
      exact Or.inl ⟨same, runs⟩
    · rw [Function.update_of_ne same] at runs
      exact Or.inr ⟨same, runs⟩
  refine ⟨kept, leaked, fun other t runs => ?_,
    fun {first second t u cell} runs runs' inside inside' => ?_, fun cell free => ?_⟩
  · rcases cases_task runs with ⟨-, now⟩ | ⟨different, old⟩
    · obtain ⟨rfl, safe⟩ := goesOn t now
      exact safe
    · have away : ∀ cell ∈ t.cells, cell ∉ cells := fun cell inside member =>
        others other t different old cell member inside
      exact (sound.safe other t old).congr (fun cell inside => value cell (away cell inside))
        fun cell inside => spent cell (away cell inside)
  · rcases cases_task runs with ⟨rfl, now⟩ | ⟨different, old⟩ <;>
      rcases cases_task runs' with ⟨rfl, now'⟩ | ⟨different', old'⟩
    · rfl
    · rw [(goesOn t now).1] at inside
      exact absurd inside' (others second u different' old' cell inside)
    · rw [(goesOn u now').1] at inside'
      exact absurd inside (others first t different old cell inside')
    · exact sound.apart old old' inside inside'
  · by_cases member : cell ∈ cells
    · cases next with
      | none => exact ends rfl cell member
      | some t =>
          have running := free thread t (Function.update_self ..) cell List.mem_cons_self
          rw [(goesOn t rfl).1] at running
          exact absurd member running
    · rw [Rested, value cell member, spent cell member]
      refine sound.idle cell fun other t runs single here inside => ?_
      rw [List.mem_singleton.mp here] at inside
      by_cases same : other = thread
      · subst same
        exact member (before t runs cell inside)
      · refine free other t ?_ cell List.mem_cons_self inside
        rw [Function.update_of_ne same]
        exact runs

/-- A thread begins a program over variables that no thread uses. -/
theorem start (sound : Sound usage s task) (free : task thread = none)
    (unused : Unused task t.cells) (safe : t.program.Safe usage t.cells s.value s.spent) :
    Sound usage s (Function.update task thread (some t)) := by
  refine sound.replace sound.kept sound.leaked (fun _ _ => rfl) (fun _ _ => rfl)
    (fun other u _ runs => unused other u runs) (fun u runs => ?_) (fun u same => ?_) nofun
  · cases free.symm.trans runs
  · cases same
    exact ⟨rfl, safe⟩

/-- A program ends. -/
theorem finish (sound : Sound usage s task) (runs : task thread = some t)
    (done : t.program.isDone = true) : Sound usage s (Function.update task thread none) := by
  have safe := sound.safe thread t runs
  rw [t.program.eq_done done] at safe
  refine sound.replace sound.kept sound.leaked (fun _ _ => rfl) (fun _ _ => rfl)
    (sound.others runs) (fun u runs' => ?_) nofun fun _ => safe
  cases runs.symm.trans runs'
  exact fun _ inside => inside

variable [DecidableEq Handle]

/-- A thread takes a step of its program. -/
theorem step (sound : Sound usage s task) (runs : task thread = some t) {new : Option Handle}
    {rest : Program Cell Handle} {effect : Effect (Handles Cell Bag Handle) Handle}
    (stepped : t.program.step new s = some (rest, effect)) :
    Sound usage effect.state (Function.update task thread (some ⟨t.cells, rest⟩)) ∧
      ∀ handle ∈ effect.emitted, s.isOpen handle = true := by
  have stays := (sound.safe thread t runs).step sound.kept stepped
  refine ⟨sound.replace stays.kept (fun handle member => ?_) stays.value stays.spent
    (sound.others runs) (fun u runs' => ?_) (fun u same => ?_) nofun, stays.emitted⟩
  · exact (stays.leaked handle member).elim (sound.leaked handle) id
  · cases runs.symm.trans runs'
    exact fun _ inside => inside
  · cases same
    exact ⟨rfl, stays.rest⟩

end Sound

end Machine

end CppRaft
