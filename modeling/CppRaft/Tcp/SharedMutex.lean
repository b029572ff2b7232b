import CppRaft.Machine.Threads
import CppRaft.Machine.Trace

/-!
# The shared mutex without `pthread_rwlock_t`

`STDN::shared_mutex_base` of the Windows build: two semaphores and a count of the readers.
The first reader waits for `m_lockPermanent`, which the last one gives back; the others only
pass through `m_semaNewConcurse`. Every semaphore and counter operation is a step, for any
number of threads. Who has which semaphore is read off the places of the threads, in every
run. A later reader that passes while the first one is still waiting is inside although the
readers do not have `m_lockPermanent`; without such a step the mutex is the lock of
`Machine.Excludes`, by which the workers are modelled.
-/

namespace CppRaft

namespace Tcp

open Machine

/-- Where a thread is. The names say what it does next or, of `idle`, `reading` and `writing`,
what it has of the mutex. -/
inductive LockPlace where
  | idle
  /-- `lock_shared`, the only reader: wait for `m_lockPermanent`. -/
  | firstWait
  /-- `lock_shared`, not the only reader: wait for `m_semaNewConcurse`. -/
  | laterWait
  | laterRelease
  | reading
  /-- `unlock_shared`, no reader left: release `m_lockPermanent`. -/
  | lastRelease
  /-- `lock`, with `m_semaNewConcurse`: wait for `m_lockPermanent`. -/
  | writerWait
  | writerRelease
  | writing
  deriving DecidableEq

namespace LockPlace

/-- What a thread that has returned from `lock` or `lock_shared` has of the mutex. -/
def mode : LockPlace → LockMode
  | reading => .shared
  | writing => .exclusive
  | _ => .free

/-- `m_plReadersCount` counts the thread. -/
@[simp] def counted : LockPlace → Bool
  | firstWait | laterWait | laterRelease | reading => true
  | _ => false

/-- The thread has taken `m_semaNewConcurse`. -/
@[simp] def hasNewConcurse : LockPlace → Bool
  | laterRelease | writerWait | writerRelease => true
  | _ => false

/-- The thread has taken `m_lockPermanent` as a writer, or gives it back for the readers. -/
@[simp] def hasPermanent : LockPlace → Bool
  | lastRelease | writerRelease | writing => true
  | _ => false

/-- The first reader, before it has `m_lockPermanent`. -/
@[simp] def first : LockPlace → Bool
  | firstWait => true
  | _ => false

/-- A reader that has passed its wait. -/
def passed : LockPlace → Bool
  | laterRelease | reading => true
  | _ => false

/-- A reader that has passed its wait is counted. -/
theorem counted_of_passed {place : LockPlace} (passed : place.passed = true) :
    place.counted = true := by
  cases place with
  | laterRelease => rfl
  | reading => rfl
  | _ => cases passed

/-- The first reader waits at one place only. -/
theorem eq_firstWait {place : LockPlace} (first : place.first = true) : place = firstWait := by
  cases place with
  | firstWait => rfl
  | _ => cases first

/-- Only a writer that has returned from `lock` has the mutex for itself. -/
theorem eq_writing {place : LockPlace} (exclusive : place.mode = .exclusive) :
    place = writing := by
  cases place with
  | writing => rfl
  | _ => cases exclusive

end LockPlace

/-- The counts of `m_lockPermanent` and `m_semaNewConcurse`, `*m_plReadersCount`, and the
threads. -/
structure SharedMutexBase (ι : Type) where
  lockPermanent : ℕ
  semaNewConcurse : ℕ
  readersCount : Int
  place : ι → LockPlace

/-- A thread calls a function of the mutex, of which this is the first operation, or goes on with
the one it has called. -/
inductive LockEvent (ι : Type) where
  | lockShared (thread : ι)
  | lock (thread : ι)
  | unlock (thread : ι)
  | unlockShared (thread : ι)
  | goOn (thread : ι)

/-- The thread that takes the step. -/
def LockEvent.thread {ι : Type} : LockEvent ι → ι
  | lockShared thread | lock thread | unlock thread | unlockShared thread | goOn thread => thread

/-- `ReleaseSemaphore` of one: it fails at the maximal count. -/
def releaseSemaphore (count : ℕ) : ℕ :=
  if count < 5 then count + 1 else count

namespace SharedMutexBase

variable {ι : Type} [DecidableEq ι]

/-- The mutex that `createSharedMutex` makes. -/
def createSharedMutex : SharedMutexBase ι where
  lockPermanent := 1
  semaNewConcurse := 1
  readersCount := 0
  place := fun _ => .idle

/-- A thread goes on. -/
def goto (thread : ι) (place : LockPlace) (s : SharedMutexBase ι) : SharedMutexBase ι :=
  { s with place := Function.update s.place thread place }

/-- `WaitForSingleObject(m_lockPermanent, INFINITE)`. -/
def waitPermanent (thread : ι) (place : LockPlace) (s : SharedMutexBase ι) :
    Option (SharedMutexBase ι) :=
  match s.lockPermanent with
  | 0 => none
  | count + 1 => some ({ s with lockPermanent := count }.goto thread place)

/-- `ReleaseSemaphore(m_lockPermanent, 1, NULL)`. -/
def releasePermanent (thread : ι) (place : LockPlace) (s : SharedMutexBase ι) :
    SharedMutexBase ι :=
  { s with lockPermanent := releaseSemaphore s.lockPermanent }.goto thread place

/-- `WaitForSingleObject(m_semaNewConcurse, INFINITE)`. -/
def waitNewConcurse (thread : ι) (place : LockPlace) (s : SharedMutexBase ι) :
    Option (SharedMutexBase ι) :=
  match s.semaNewConcurse with
  | 0 => none
  | count + 1 => some ({ s with semaNewConcurse := count }.goto thread place)

/-- `ReleaseSemaphore(m_semaNewConcurse, 1, NULL)`. -/
def releaseNewConcurse (thread : ι) (place : LockPlace) (s : SharedMutexBase ι) :
    SharedMutexBase ι :=
  { s with semaNewConcurse := releaseSemaphore s.semaNewConcurse }.goto thread place

/-- `InterlockedIncrement` or `InterlockedDecrement` of the readers. -/
def countReaders (change : Int) (thread : ι) (place : Int → LockPlace) (s : SharedMutexBase ι) :
    SharedMutexBase ι :=
  { s with readersCount := s.readersCount + change }.goto thread (place (s.readersCount + change))

/-- The step an event takes; a wait for a semaphore at zero takes none. -/
def next (s : SharedMutexBase ι) : LockEvent ι → Option (SharedMutexBase ι)
  | .lockShared thread =>
      if s.place thread = .idle then
        some (s.countReaders 1 thread fun count =>
          if count > 1 then .laterWait else .firstWait)
      else none
  | .lock thread =>
      if s.place thread = .idle then s.waitNewConcurse thread .writerWait else none
  | .unlock thread =>
      if s.place thread = .writing then some (s.releasePermanent thread .idle) else none
  | .unlockShared thread =>
      if s.place thread = .reading then
        some (s.countReaders (-1) thread fun count =>
          if count = 0 then .lastRelease else .idle)
      else none
  | .goOn thread =>
      match s.place thread with
      | .firstWait => s.waitPermanent thread .reading
      | .laterWait => s.waitNewConcurse thread .laterRelease
      | .laterRelease => some (s.releaseNewConcurse thread .reading)
      | .lastRelease => some (s.releasePermanent thread .idle)
      | .writerWait => s.waitPermanent thread .writerRelease
      | .writerRelease => some (s.releaseNewConcurse thread .writing)
      | _ => none

variable (ι) in
/-- The mutex as a machine. -/
def machine : Machine (SharedMutexBase ι) (LockEvent ι) Empty where
  step := fun s event => (s.next event).map Effect.done

/-- One step of a run. -/
abbrev Step (ι : Type) : Type :=
  Transition (SharedMutexBase ι) (LockEvent ι) Empty

/-- The defined steps of a thread. -/
inductive StepResult (s : SharedMutexBase ι) (i : ι) : SharedMutexBase ι → Prop where
  | firstCounted (idle : s.place i = .idle) (alone : s.readersCount + 1 ≤ 1) :
      StepResult s i ({ s with readersCount := s.readersCount + 1 }.goto i .firstWait)
  | laterCounted (idle : s.place i = .idle) (others : 1 < s.readersCount + 1) :
      StepResult s i ({ s with readersCount := s.readersCount + 1 }.goto i .laterWait)
  | firstEntered {count : ℕ} (waiting : s.place i = .firstWait)
      (taken : s.lockPermanent = count + 1) :
      StepResult s i ({ s with lockPermanent := count }.goto i .reading)
  | laterPassed {count : ℕ} (waiting : s.place i = .laterWait)
      (taken : s.semaNewConcurse = count + 1) :
      StepResult s i ({ s with semaNewConcurse := count }.goto i .laterRelease)
  | laterEntered (passed : s.place i = .laterRelease) :
      StepResult s i (s.releaseNewConcurse i .reading)
  | readerLeft (reading : s.place i = .reading) (others : s.readersCount + -1 ≠ 0) :
      StepResult s i ({ s with readersCount := s.readersCount + -1 }.goto i .idle)
  | lastLeft (reading : s.place i = .reading) (last : s.readersCount + -1 = 0) :
      StepResult s i ({ s with readersCount := s.readersCount + -1 }.goto i .lastRelease)
  | lastReleased (leaving : s.place i = .lastRelease) : StepResult s i (s.releasePermanent i .idle)
  | writerCame {count : ℕ} (idle : s.place i = .idle) (taken : s.semaNewConcurse = count + 1) :
      StepResult s i ({ s with semaNewConcurse := count }.goto i .writerWait)
  | writerTook {count : ℕ} (waiting : s.place i = .writerWait)
      (taken : s.lockPermanent = count + 1) :
      StepResult s i ({ s with lockPermanent := count }.goto i .writerRelease)
  | writerEntered (entering : s.place i = .writerRelease) :
      StepResult s i (s.releaseNewConcurse i .writing)
  | writerLeft (writing : s.place i = .writing) : StepResult s i (s.releasePermanent i .idle)

section Inversion

variable {s s' : SharedMutexBase ι} {i : ι} {place : LockPlace}

/-- A wait for `m_lockPermanent` takes one from its count. -/
theorem waitPermanent_eq_some (waited : s.waitPermanent i place = some s') :
    ∃ count, s.lockPermanent = count + 1 ∧ s' = { s with lockPermanent := count }.goto i place := by
  unfold waitPermanent at waited
  split at waited
  · cases waited
  · exact ⟨_, ‹_›, (Option.some.inj waited).symm⟩

/-- A wait for `m_semaNewConcurse` takes one from its count. -/
theorem waitNewConcurse_eq_some (waited : s.waitNewConcurse i place = some s') :
    ∃ count, s.semaNewConcurse = count + 1 ∧
      s' = { s with semaNewConcurse := count }.goto i place := by
  unfold waitNewConcurse at waited
  split at waited
  · cases waited
  · exact ⟨_, ‹_›, (Option.some.inj waited).symm⟩

/-- The first operation of `lock_shared`: who is the first reader is decided by the
incremented count, in one step. -/
theorem lockShared_result (idle : s.place i = .idle) :
    StepResult s i (s.countReaders 1 i fun count =>
      if count > 1 then .laterWait else .firstWait) := by
  simp only [countReaders]
  split
  · exact .laterCounted idle ‹_›
  · exact .firstCounted idle (Int.not_lt.mp ‹_›)

/-- The first operation of `unlock_shared`: the last reader is the one that brings the count
to zero. -/
theorem unlockShared_result (reading : s.place i = .reading) :
    StepResult s i (s.countReaders (-1) i fun count =>
      if count = 0 then .lastRelease else .idle) := by
  simp only [countReaders]
  split
  · exact .lastLeft reading ‹_›
  · exact .readerLeft reading ‹_›

/-- Every step is one of `StepResult`: the invariants below split over these cases and not
over the events. -/
theorem step_result {event : LockEvent ι} {effect : Effect (SharedMutexBase ι) Empty}
    (stepped : (machine ι).step s event = some effect) :
    StepResult s event.thread effect.state := by
  obtain ⟨s', next, rfl⟩ := Option.map_eq_some_iff.mp stepped
  cases event with
  | lockShared thread =>
      obtain ⟨idle, ⟨⟩⟩ := Option.ite_none_right_eq_some.mp next
      exact lockShared_result idle
  | lock thread =>
      obtain ⟨idle, waited⟩ := Option.ite_none_right_eq_some.mp next
      obtain ⟨count, taken, rfl⟩ := waitNewConcurse_eq_some waited
      exact .writerCame idle taken
  | unlock thread =>
      obtain ⟨writing, ⟨⟩⟩ := Option.ite_none_right_eq_some.mp next
      exact .writerLeft writing
  | unlockShared thread =>
      obtain ⟨reading, ⟨⟩⟩ := Option.ite_none_right_eq_some.mp next
      exact unlockShared_result reading
  | goOn thread =>
      simp only [SharedMutexBase.next] at next
      split at next
      case h_1 waiting =>
          obtain ⟨count, taken, rfl⟩ := waitPermanent_eq_some next
          exact .firstEntered waiting taken
      case h_2 waiting =>
          obtain ⟨count, taken, rfl⟩ := waitNewConcurse_eq_some next
          exact .laterPassed waiting taken
      case h_3 passed =>
          cases next
          exact .laterEntered passed
      case h_4 leaving =>
          cases next
          exact .lastReleased leaving
      case h_5 waiting =>
          obtain ⟨count, taken, rfl⟩ := waitPermanent_eq_some next
          exact .writerTook waiting taken
      case h_6 entering =>
          cases next
          exact .writerEntered entering
      case h_7 => cases next

end Inversion

section Semaphores

variable [Fintype ι] {s s' : SharedMutexBase ι} {i : ι}

/-- The number of threads at the places that have a property. -/
def threadsWith (s : SharedMutexBase ι) (f : LockPlace → Bool) : ℕ :=
  threadsAt (fun i => f (s.place i)) true

/-- A thread that goes from one place to another, in numbers. -/
theorem threadsWith_goto {old : LockPlace} (here : s.place i = old) (new : LockPlace)
    (f : LockPlace → Bool) :
    (s.goto i new).threadsWith f + (f old).toNat = s.threadsWith f + (f new).toNat := by
  have moved : (s.goto i new).threadsWith f + _ = s.threadsWith f + _ :=
    threadsAt_comp_update f here new true
  simpa only [Bool.toNat, Bool.cond_eq_ite] using moved

/-- What the readers have of `m_lockPermanent`, or wait for. -/
def readersShare (s : SharedMutexBase ι) : ℕ :=
  if s.readersCount = 0 then 0 else 1

/-- Whose the semaphores are. The readers have `m_lockPermanent` together, unless the first of
them is still waiting for it. -/
structure Held (s : SharedMutexBase ι) : Prop where
  readers : s.readersCount = s.threadsWith LockPlace.counted
  newConcurse : s.semaNewConcurse + s.threadsWith LockPlace.hasNewConcurse = 1
  permanent : s.lockPermanent + s.threadsWith LockPlace.hasPermanent + s.readersShare =
    1 + s.threadsWith LockPlace.first
  first : s.threadsWith LockPlace.first ≤ s.readersShare

omit [DecidableEq ι] in
/-- `createSharedMutex` releases both semaphores once, and nobody has them. -/
theorem held_createSharedMutex : Held (createSharedMutex : SharedMutexBase ι) := by
  have nobody (f : LockPlace → Bool) (free : f .idle = false) :
      (createSharedMutex : SharedMutexBase ι).threadsWith f = 0 :=
    threadsAt_eq_zero fun _ => ne_true_of_eq_false free
  refine ⟨?_, ?_, ?_, ?_⟩
  · exact congrArg Nat.cast (nobody _ rfl).symm
  · rw [nobody _ rfl]
    rfl
  · rw [nobody _ rfl, nobody _ rfl]
    rfl
  · exact Nat.le_of_eq (nobody _ rfl)

/-- The count is positive while a reader is counted. -/
theorem Held.readersCount_pos (held : Held s) (counted : (s.place i).counted = true) :
    0 < s.readersCount := by
  rw [held.readers]
  exact Int.natCast_pos.mpr (threadsAt_pos counted)

omit [DecidableEq ι] in
/-- Beside the only reader that is counted no first reader waits. -/
theorem Held.no_first (held : Held s) (reading : s.place i = .reading)
    (alone : s.readersCount = 1) : s.threadsWith LockPlace.first = 0 := by
  by_contra some
  obtain ⟨j, first⟩ := exists_of_threadsAt_pos (Nat.pos_of_ne_zero some)
  have other : i ≠ j := by
    rintro rfl
    rw [reading] at first
    cases first
  have counted := congrArg LockPlace.counted (LockPlace.eq_firstWait first)
  have two : 1 < s.threadsWith LockPlace.counted :=
    one_lt_threadsAt other (congrArg LockPlace.counted reading) counted
  have readers := held.readers
  omega

/-- A thread goes on, with the semaphores and the count changed as its places say. The
counts of threads at places change by this thread only. -/
theorem Held.goto {t : SharedMutexBase ι} {old new : LockPlace} (held : Held s)
    (same : t.place = s.place) (here : s.place i = old)
    (readers : t.readersCount + old.counted.toNat = s.readersCount + new.counted.toNat)
    (newConcurse : t.semaNewConcurse + new.hasNewConcurse.toNat =
      s.semaNewConcurse + old.hasNewConcurse.toNat)
    (permanent : t.lockPermanent + new.hasPermanent.toNat + t.readersShare + old.first.toNat =
      s.lockPermanent + old.hasPermanent.toNat + s.readersShare + new.first.toNat)
    (first : s.threadsWith LockPlace.first + new.first.toNat ≤ t.readersShare + old.first.toNat) :
    Held (t.goto i new) := by
  have moved (f : LockPlace → Bool) :
      (t.goto i new).threadsWith f + (f old).toNat = s.threadsWith f + (f new).toNat := by
    have tally := threadsWith_goto ((congrFun same i).trans here) new f
    rwa [threadsWith, threadsWith, same] at tally
  have counted := moved LockPlace.counted
  have hasNewConcurse := moved LockPlace.hasNewConcurse
  have hasPermanent := moved LockPlace.hasPermanent
  have firsts := moved LockPlace.first
  obtain ⟨readers', newConcurse', permanent', first'⟩ := held
  constructor
  · show t.readersCount = _
    omega
  · show t.semaNewConcurse + _ = _
    omega
  · show t.lockPermanent + _ + t.readersShare = _
    omega
  · show _ ≤ t.readersShare
    omega

omit [DecidableEq ι] in
/-- No semaphore is at its maximum. -/
theorem Held.releaseSemaphore_eq (held : Held s) :
    releaseSemaphore s.lockPermanent = s.lockPermanent + 1 ∧
      releaseSemaphore s.semaNewConcurse = s.semaNewConcurse + 1 := by
  obtain ⟨-, newConcurse, permanent, first⟩ := held
  exact ⟨if_pos (by omega), if_pos (by omega)⟩

/-- A thread goes on and leaves the count of the readers alone. -/
theorem Held.goto_uncounted {t : SharedMutexBase ι} {old new : LockPlace} (held : Held s)
    (same : t.place = s.place) (count : t.readersCount = s.readersCount) (here : s.place i = old)
    (counted : old.counted = new.counted) (entered : new.first = false)
    (newConcurse : t.semaNewConcurse + new.hasNewConcurse.toNat =
      s.semaNewConcurse + old.hasNewConcurse.toNat)
    (permanent : t.lockPermanent + new.hasPermanent.toNat + old.first.toNat =
      s.lockPermanent + old.hasPermanent.toNat) : Held (t.goto i new) := by
  have share : t.readersShare = s.readersShare := by
    rw [readersShare, readersShare, count]
  have first := held.first
  refine held.goto same here ?_ newConcurse ?_ ?_
  · rw [count, counted]
  · rw [share, entered, Bool.toNat_false]
    omega
  · rw [share, entered, Bool.toNat_false]
    omega

/-- A step keeps track of the semaphores, case by case over what the thread did. Releases
never meet the maximal count, as a semaphore is only given back by who has it. -/
theorem StepResult.held (result : StepResult s i s') (held : Held s) : Held s' := by
  have nonneg : 0 ≤ s.readersCount := held.readers ▸ Int.natCast_nonneg _
  have first := held.first
  have fewer : s.readersCount + -1 + 1 = s.readersCount + 0 := by omega
  obtain ⟨releasedPermanent, releasedNewConcurse⟩ := held.releaseSemaphore_eq
  cases result with
  | firstCounted idle alone =>
      have before : s.readersShare = 0 := if_pos (by omega)
      have after : { s with readersCount := s.readersCount + 1 }.readersShare = 1 :=
        if_neg (show s.readersCount + 1 ≠ 0 by omega)
      refine held.goto rfl idle (Int.add_zero _) rfl ?_ ?_
      · rw [before, after]
        rfl
      · rw [after]
        exact Nat.add_le_add_right (before ▸ first) 1
  | laterCounted idle others =>
      have before : s.readersShare = 1 := if_neg (by omega)
      have after : { s with readersCount := s.readersCount + 1 }.readersShare = 1 :=
        if_neg (show s.readersCount + 1 ≠ 0 by omega)
      refine held.goto rfl idle (Int.add_zero _) rfl ?_ ?_
      · rw [before, after]
        rfl
      · rw [after]
        exact before ▸ first
  | firstEntered waiting taken =>
      exact held.goto_uncounted rfl rfl waiting rfl rfl rfl taken.symm
  | laterPassed waiting taken =>
      exact held.goto_uncounted rfl rfl waiting rfl rfl taken.symm rfl
  | laterEntered passed =>
      exact held.goto_uncounted rfl rfl passed rfl rfl releasedNewConcurse rfl
  | readerLeft reading others =>
      have before : s.readersShare = 1 :=
        if_neg (held.readersCount_pos (congrArg LockPlace.counted reading)).ne'
      have after : { s with readersCount := s.readersCount + -1 }.readersShare = 1 := if_neg others
      refine held.goto rfl reading fewer rfl ?_ ?_
      · rw [before, after]
        rfl
      · rw [after]
        exact before ▸ first
  | lastLeft reading last =>
      have alone : s.readersCount = 1 := by omega
      have before : s.readersShare = 1 := if_neg (by omega)
      have after : { s with readersCount := s.readersCount + -1 }.readersShare = 0 := if_pos last
      refine held.goto rfl reading fewer rfl ?_ ?_
      · rw [before, after]
        rfl
      · rw [after]
        exact (held.no_first reading alone).le
  | lastReleased leaving =>
      exact held.goto_uncounted rfl rfl leaving rfl rfl rfl releasedPermanent
  | writerCame idle taken =>
      exact held.goto_uncounted rfl rfl idle rfl rfl taken.symm rfl
  | writerTook waiting taken =>
      exact held.goto_uncounted rfl rfl waiting rfl rfl rfl taken.symm
  | writerEntered entering =>
      exact held.goto_uncounted rfl rfl entering rfl rfl releasedNewConcurse rfl
  | writerLeft writing =>
      exact held.goto_uncounted rfl rfl writing rfl rfl rfl releasedPermanent

/-- In every run the semaphores belong to the threads that have taken them. -/
theorem run_held {trace : List (Step ι)} (run : (machine ι).Run createSharedMutex trace s) :
    Held s :=
  run.invariant (fun _ s => Held s) held_createSharedMutex
    fun _ held stepped => (step_result stepped).held held

end Semaphores

section Exclusion

variable {s s' : SharedMutexBase ι} {i : ι}

/-- The readers that have passed have `m_lockPermanent`: the first is not waiting for it. -/
def ReadersHold (s : SharedMutexBase ι) : Prop :=
  ∀ i j, (s.place i).passed = true → s.place j ≠ .firstWait

/-- A later reader takes `m_semaNewConcurse` while the first is still waiting for
`m_lockPermanent`. -/
def Overtakes (s : SharedMutexBase ι) (event : LockEvent ι) : Prop :=
  s.place event.thread = .laterWait ∧ ∃ j, s.place j = .firstWait

instance [Fintype ι] (s : SharedMutexBase ι) (event : LockEvent ι) :
    Decidable (s.Overtakes event) :=
  inferInstanceAs (Decidable (_ ∧ _))

/-- A thread goes on: if it passes, no other thread waits as the first reader, and if it waits
as the first reader, no other thread has passed. -/
theorem ReadersHold.goto {t : SharedMutexBase ι} {new : LockPlace} (before : ReadersHold s)
    (same : t.place = s.place)
    (passes : new.passed = true → ∀ j, j ≠ i → s.place j ≠ .firstWait)
    (waits : new = .firstWait → ∀ j, (s.place j).passed ≠ true) : ReadersHold (t.goto i new) := by
  intro j k passed first
  simp only [SharedMutexBase.goto, same] at passed first
  by_cases second : k = i
  · subst second
    rw [Function.update_self] at first
    subst first
    by_cases one : j = k
    · subst one
      rw [Function.update_self] at passed
      cases passed
    · rw [Function.update_of_ne one] at passed
      exact waits rfl j passed
  · rw [Function.update_of_ne second] at first
    by_cases one : j = i
    · subst one
      rw [Function.update_self] at passed
      exact passes passed k second first
    · rw [Function.update_of_ne one] at passed
      exact before j k passed first

variable [Fintype ι]

omit [DecidableEq ι] in
/-- Only one reader waits as the first. -/
theorem Held.only_first (held : Held s) {j : ι} (first : s.place i = .firstWait) (other : j ≠ i) :
    s.place j ≠ .firstWait := by
  intro also
  have two : 1 < s.threadsWith LockPlace.first :=
    one_lt_threadsAt other (congrArg LockPlace.first also) (congrArg LockPlace.first first)
  have share : s.readersShare ≤ 1 := by
    unfold readersShare
    split <;> omega
  exact absurd (two.trans_le (held.first.trans share)) (Nat.lt_irrefl 1)

/-- The readers that have passed keep `m_lockPermanent` unless one overtakes the first. That
is the step of the source which is wrong: a later reader does not wait for the first one. -/
theorem StepResult.readersHold_iff {event : LockEvent ι} (result : StepResult s event.thread s')
    (held : Held s) (before : ReadersHold s) : ReadersHold s' ↔ ¬ s.Overtakes event := by
  -- the steps of a thread that is not a later reader
  have elsewhere {old : LockPlace} (here : s.place event.thread = old) (other : old ≠ .laterWait)
      (after : ReadersHold s') : ReadersHold s' ↔ ¬ s.Overtakes event :=
    iff_of_true after fun overtakes => other (here.symm.trans overtakes.1)
  cases result with
  | firstCounted idle alone =>
      refine elsewhere idle nofun (before.goto rfl nofun fun _ j passed => ?_)
      have counted := held.readersCount_pos (LockPlace.counted_of_passed passed)
      omega
  | laterCounted idle others => exact elsewhere idle nofun (before.goto rfl nofun nofun)
  | firstEntered waiting taken =>
      exact elsewhere waiting nofun
        (before.goto rfl (fun _ _ other => held.only_first waiting other) nofun)
  | laterPassed waiting taken =>
      refine ⟨fun after overtakes => ?_, fun waits => ?_⟩
      · obtain ⟨-, j, first⟩ := overtakes
        have other : j ≠ event.thread := by
          rintro rfl
          cases waiting.symm.trans first
        refine after event.thread j ?_ ?_
        · simp only [SharedMutexBase.goto, Function.update_self, LockPlace.passed]
        · simp only [SharedMutexBase.goto, Function.update_of_ne other, first]
      · exact before.goto rfl (fun _ j _ first => waits ⟨waiting, j, first⟩) nofun
  | laterEntered passed =>
      exact elsewhere passed nofun
        (before.goto rfl (fun _ j _ => before _ j (congrArg LockPlace.passed passed)) nofun)
  | readerLeft reading others => exact elsewhere reading nofun (before.goto rfl nofun nofun)
  | lastLeft reading last => exact elsewhere reading nofun (before.goto rfl nofun nofun)
  | lastReleased leaving => exact elsewhere leaving nofun (before.goto rfl nofun nofun)
  | writerCame idle taken => exact elsewhere idle nofun (before.goto rfl nofun nofun)
  | writerTook waiting taken => exact elsewhere waiting nofun (before.goto rfl nofun nofun)
  | writerEntered entering => exact elsewhere entering nofun (before.goto rfl nofun nofun)
  | writerLeft writing => exact elsewhere writing nofun (before.goto rfl nofun nofun)

omit [DecidableEq ι] in
/-- Two writers are never inside. -/
theorem Held.only_writer (held : Held s) {j : ι} (different : i ≠ j)
    (first : s.place i = .writing) : s.place j ≠ .writing := by
  intro second
  have two : 1 < s.threadsWith LockPlace.hasPermanent :=
    one_lt_threadsAt different (congrArg LockPlace.hasPermanent first)
      (congrArg LockPlace.hasPermanent second)
  have permanent := held.permanent
  have one := held.first
  omega

/-- A reader beside a writer is inside before the first reader. -/
theorem Held.first_waits (held : Held s) {j : ι} (writing : s.place i = .writing)
    (reading : s.place j = .reading) : ∃ k, s.place k = .firstWait := by
  have writers : 0 < s.threadsWith LockPlace.hasPermanent :=
    threadsAt_pos (congrArg LockPlace.hasPermanent writing)
  have share : s.readersShare = 1 :=
    if_neg (held.readersCount_pos (congrArg LockPlace.counted reading)).ne'
  have permanent := held.permanent
  have firsts : 0 < s.threadsWith LockPlace.first := by omega
  obtain ⟨k, first⟩ := exists_of_threadsAt_pos firsts
  exact ⟨k, LockPlace.eq_firstWait first⟩

/-- If the readers that have passed have `m_lockPermanent`, a writer is alone: it would need
the same semaphore. -/
theorem ReadersHold.excludes (holds : ReadersHold s) (held : Held s) :
    Excludes fun i => (s.place i).mode := by
  intro i j different exclusive
  have writing := LockPlace.eq_writing exclusive
  cases place : s.place j with
  | reading =>
      obtain ⟨k, first⟩ := held.first_waits writing place
      exact absurd first (holds j k (congrArg LockPlace.passed place))
  | writing => exact absurd place (held.only_writer different writing)
  | _ => exact congrArg LockPlace.mode place

/-- For any number of threads and any interleaving of their operations: the readers that have
passed hold `m_lockPermanent` throughout a run if and only if no later reader takes
`m_semaNewConcurse` while the first is still waiting for `m_lockPermanent`, and in such a run a
thread between `lock` and `unlock` is alone in the mutex. -/
theorem writer_alone_unless_overtaken {trace : List (Step ι)}
    (run : (machine ι).Run createSharedMutex trace s) :
    ((∀ t ∈ trace, t.after.ReadersHold) ↔ ∀ t ∈ trace, ¬ t.before.Overtakes t.event) ∧
      ((∀ t ∈ trace, ¬ t.before.Overtakes t.event) → Excludes fun i => (s.place i).mode) := by
  have kept := run.forall_after_iff (I := ReadersHold) (P := fun t => ¬ t.before.Overtakes t.event)
    nofun fun run before stepped => (step_result stepped).readersHold_iff (run_held run) before
  exact ⟨kept.1, fun waits => (kept.2 (kept.1.mpr waits)).excludes (run_held run)⟩

/-- Two readers, and then a writer. -/
def readersThenWriter (first later writer : ι) : List (LockEvent ι) :=
  [.lockShared first, .goOn first, .lockShared later, .goOn later, .goOn later,
    .unlockShared first, .unlockShared later, .goOn later, .lock writer, .goOn writer,
    .goOn writer]

/-- Two readers come and go, nobody is overtaken, and the writer that follows is alone. -/
theorem writer_alone_readersThenWriter :
    ((machine (Fin 3)).execute createSharedMutex (readersThenWriter 0 1 2)).isSome ∧
      (∀ t ∈ (machine (Fin 3)).traceOf createSharedMutex (readersThenWriter 0 1 2),
        ¬ t.before.Overtakes t.event) ∧
      ((machine (Fin 3)).stateOf createSharedMutex (readersThenWriter 0 1 2)).place 2 = .writing ∧
      Excludes fun i =>
        (((machine (Fin 3)).stateOf createSharedMutex (readersThenWriter 0 1 2)).place i).mode :=
  ⟨by decide, by decide, by decide,
    (writer_alone_unless_overtaken (run_traceOf (machine (Fin 3)) createSharedMutex
      (readersThenWriter 0 1 2) (by decide))).2 (by decide)⟩

/-- A writer is inside, the first reader waits for it, and a later reader does not. -/
def readerOvertakes (first later writer : ι) : List (LockEvent ι) :=
  [.lock writer, .goOn writer, .goOn writer, .lockShared first, .lockShared later, .goOn later,
    .goOn later]

/-- A writer is inside and the first reader waits for it; the second reader sees a positive
count, does not wait, and reads beside the writer. -/
theorem later_reader_beside_writer :
    ∃ trace s, (machine (Fin 3)).Run createSharedMutex trace s ∧
      s.place 2 = .writing ∧ s.place 1 = .reading ∧ s.place 0 = .firstWait :=
  ⟨_, _, run_traceOf (machine (Fin 3)) createSharedMutex (readerOvertakes 0 1 2) (by decide),
    by decide, by decide, by decide⟩

end Exclusion

end SharedMutexBase

end Tcp

end CppRaft
