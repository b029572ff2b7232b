import Mathlib.Algebra.BigOperators.Group.Finset.Basic
import Mathlib.Data.Finset.Card
import Mathlib.Data.Fintype.Card

/-!
# Families of threads

Counting the threads that hold something while they take turns, and a lock that many
threads share or one has for itself. Both are read off the places where the threads
are, so a thread that moves changes them at one point.
-/

namespace CppRaft

namespace Machine

variable {ι α : Type} [DecidableEq ι]

section Holders

variable [Fintype ι] [DecidableEq α]

/-- The number of threads that hold `a`. -/
def holders (held : ι → Option α) (a : α) : ℕ :=
  (Finset.univ.filter fun i => held i = some a).card

/-- The threads that hold `a`, one of them apart. -/
private theorem holders_eq (held : ι → Option α) (i : ι) (a : α) :
    holders held a = ((Finset.univ.erase i).filter fun j => held j = some a).card +
      if held i = some a then 1 else 0 := by
  have split := Finset.filter_insert (fun j => held j = some a) i (Finset.univ.erase i)
  rw [Finset.insert_erase (Finset.mem_univ i)] at split
  unfold holders
  rw [split]
  by_cases holds : held i = some a
  · rw [if_pos holds, if_pos holds, Finset.card_insert_of_notMem (by simp)]
  · rw [if_neg holds, if_neg holds, Nat.add_zero]

/-- A thread that changes what it holds. -/
theorem holders_update (held : ι → Option α) (i : ι) (new : Option α) (a : α) :
    holders (Function.update held i new) a + (if held i = some a then 1 else 0) =
      holders held a + if new = some a then 1 else 0 := by
  have others : (Finset.univ.erase i).filter (fun j => Function.update held i new j = some a) =
      (Finset.univ.erase i).filter fun j => held j = some a := by
    refine Finset.filter_congr fun j other => ?_
    rw [Function.update_of_ne (Finset.ne_of_mem_erase other)]
  rw [holders_eq _ i, holders_eq held i, others, Function.update_self]
  omega

/-- Somebody holds what a thread holds. -/
theorem holders_pos (held : ι → Option α) {i : ι} {a : α} (holds : held i = some a) :
    0 < holders held a := by
  have released := holders_update held i none a
  rw [if_pos holds, if_neg (Option.some_ne_none a).symm] at released
  omega

omit [DecidableEq ι] in
/-- Nobody holds what no thread holds. -/
theorem holders_eq_zero {held : ι → Option α} {a : α} (free : ∀ i, held i ≠ some a) :
    holders held a = 0 :=
  Finset.card_eq_zero.mpr (Finset.filter_eq_empty_iff.mpr fun i _ => free i)

/-- The number of threads at a place. -/
def threadsAt (place : ι → α) (a : α) : ℕ :=
  holders (fun i => some (place i)) a

/-- A thread that goes from one place to another, seen through what the places have in common. -/
theorem threadsAt_comp_update {β : Type} (f : β → α) {place : ι → β} {i : ι} {old : β}
    (here : place i = old) (new : β) (a : α) :
    threadsAt (fun j => f (Function.update place i new j)) a + (if f old = a then 1 else 0) =
      threadsAt (fun j => f (place j)) a + if f new = a then 1 else 0 := by
  have moved := holders_update (fun j => some (f (place j))) i (some (f new)) a
  have places : (fun j => some (f (Function.update place i new j))) =
      Function.update (fun j => some (f (place j))) i (some (f new)) :=
    Function.comp_update (some ∘ f) place i new
  simp only [here, Option.some.injEq] at moved
  rw [threadsAt, places]
  exact moved

/-- A move of a thread changes the counts of the two places. -/
theorem threadsAt_update {place : ι → α} {i : ι} {old : α} (here : place i = old) (new a : α) :
    threadsAt (Function.update place i new) a + (if old = a then 1 else 0) =
      threadsAt place a + if new = a then 1 else 0 :=
  threadsAt_comp_update id here new a

/-- There is somebody where a thread is. -/
theorem threadsAt_pos {place : ι → α} {i : ι} {a : α} (here : place i = a) :
    0 < threadsAt place a :=
  holders_pos _ (congrArg some here)

omit [DecidableEq ι] in
/-- There is nobody where no thread is. -/
theorem threadsAt_eq_zero {place : ι → α} {a : α} (nobody : ∀ i, place i ≠ a) :
    threadsAt place a = 0 :=
  holders_eq_zero fun i here => nobody i (Option.some.inj here)

omit [DecidableEq ι] in
/-- A positive count comes from a thread. -/
theorem exists_of_threadsAt_pos {place : ι → α} {a : α} (some : 0 < threadsAt place a) :
    ∃ i, place i = a := by
  by_contra nobody
  rw [threadsAt_eq_zero (not_exists.mp nobody)] at some
  exact absurd some (Nat.lt_irrefl 0)

omit [DecidableEq ι] in
/-- There are no more threads at a place than there are threads. -/
theorem threadsAt_le_card (place : ι → α) (a : α) : threadsAt place a ≤ Fintype.card ι :=
  Finset.card_le_univ _

omit [DecidableEq α] in
/-- What the threads have ahead of them when one goes from one place to another. -/
theorem sum_comp_update (weight : α → ℕ) {place : ι → α} {i : ι} {old : α} (here : place i = old)
    (new : α) :
    ∑ j, weight (Function.update place i new j) + weight old =
      ∑ j, weight (place j) + weight new := by
  have others : ∑ j ∈ Finset.univ.erase i, weight (Function.update place i new j) =
      ∑ j ∈ Finset.univ.erase i, weight (place j) := by
    refine Finset.sum_congr rfl fun j other => ?_
    rw [Function.update_of_ne (Finset.ne_of_mem_erase other)]
  rw [← Finset.add_sum_erase _ _ (Finset.mem_univ i),
    ← Finset.add_sum_erase _ (fun j => weight (place j)) (Finset.mem_univ i), others,
    Function.update_self, here]
  omega

omit [DecidableEq ι] in
/-- Two threads at one place. -/
theorem one_lt_threadsAt {place : ι → α} {i j : ι} {a : α} (different : i ≠ j)
    (first : place i = a) (second : place j = a) : 1 < threadsAt place a :=
  Finset.one_lt_card.mpr
    ⟨i, by simpa using first, j, by simpa using second, different⟩

end Holders

/-- What a thread has of a lock. -/
inductive LockMode where
  | free
  | shared
  | exclusive
  deriving DecidableEq

/-- Nobody else has anything of a lock that one thread has for itself. -/
def Excludes (mode : ι → LockMode) : Prop :=
  ∀ i j, i ≠ j → mode i = .exclusive → mode j = .free

/-- The lock may be shared. -/
def MayShare (mode : ι → LockMode) : Prop :=
  ∀ i, mode i ≠ .exclusive

/-- The lock may be taken. -/
def MayLock (mode : ι → LockMode) : Prop :=
  ∀ i, mode i = .free

instance [Fintype ι] (mode : ι → LockMode) : Decidable (MayShare mode) :=
  inferInstanceAs (Decidable (∀ i, mode i ≠ .exclusive))

instance [Fintype ι] (mode : ι → LockMode) : Decidable (MayLock mode) :=
  inferInstanceAs (Decidable (∀ i, mode i = .free))

/-- A thread may change its mode to this one. -/
def Grants (mode : ι → LockMode) (i : ι) : LockMode → Prop
  | .free => True
  | .shared => mode i = .shared ∨ MayShare mode
  | .exclusive => mode i = .exclusive ∨ MayLock mode

omit [DecidableEq ι] in
/-- A thread may keep what it has of the lock. -/
theorem Grants.of_eq {mode : ι → LockMode} {i : ι} {new : LockMode} (held : mode i = new) :
    Grants mode i new := by
  cases new with
  | free => trivial
  | shared => exact Or.inl held
  | exclusive => exact Or.inl held

omit [DecidableEq ι] in
/-- Beside a thread that has the lock for itself the others get nothing of it. -/
theorem Grants.eq_free {mode : ι → LockMode} {i j : ι} {new : LockMode} (grants : Grants mode j new)
    (excludes : Excludes mode) (other : j ≠ i) (exclusive : mode i = .exclusive) : new = .free := by
  have free := excludes i j other.symm exclusive
  cases new with
  | free => rfl
  | shared =>
      rcases grants with held | idle
      · cases held.symm.trans free
      · exact absurd exclusive (idle i)
  | exclusive =>
      rcases grants with held | idle
      · cases held.symm.trans free
      · cases (idle i).symm.trans exclusive

/-- A thread that changes its mode as the lock allows keeps the exclusion. -/
theorem Excludes.update {mode : ι → LockMode} (excludes : Excludes mode) {i : ι} {new : LockMode}
    (grants : Grants mode i new) : Excludes (Function.update mode i new) := by
  intro j k different exclusive
  by_cases first : j = i
  · subst first
    rw [Function.update_self] at exclusive
    subst exclusive
    rw [Function.update_of_ne different.symm]
    rcases grants with held | idle
    · exact excludes j k different held
    · exact idle k
  · rw [Function.update_of_ne first] at exclusive
    by_cases second : k = i
    · subst second
      rw [Function.update_self]
      exact grants.eq_free excludes different.symm exclusive
    · rw [Function.update_of_ne second]
      exact excludes j k different exclusive

end Machine

end CppRaft
