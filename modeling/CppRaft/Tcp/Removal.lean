import CppRaft.Tcp.NodeUse

/-!
# Waiting for the jobs of a node

`RemoveNode1` waits, with `m_shrdMutexForNodes2` for itself, until nobody has a lock on the
node it has marked. A queued job of the node is no harm if a worker is left that can take
it out: the mark makes it give the lock back without the mutex. But a worker that tested
the mark before it was set waits for the mutex, and gives its lock back only under it; then
neither worker goes on. The same happens if nobody is left to take a queued job out. A run
stays clear of both exactly if each `RemoveNode1` starts, and each job is taken out beside
one, in a state that leaves the jobs of the node a way on.
-/

namespace CppRaft

namespace Tcp

open Machine

namespace Pc

variable {Ptr : Type}

/-- The node that the job of a worker has locked while the worker waits for
`m_shrdMutexForNodes2`. -/
def awaits : Pc Ptr → Option Ptr
  | beforeShared job => job.node
  | beforeLock job => job.node
  | _ => none

/-- The worker waits for a job or takes one out. -/
def isFree : Pc Ptr → Bool
  | waiting => true
  | extracting => true
  | _ => false

/-- The node whose lock the worker gives back without the mutex if the node is marked. -/
def discards : Pc Ptr → Option Ptr
  | extracted job => job.node
  | marked job => job.node
  | _ => none

/-- The worker can take out the queued jobs of a marked node. -/
def Available (pc : Pc Ptr) (node : Ptr) : Prop :=
  pc.isFree = true ∨ pc.discards = some node

instance [DecidableEq Ptr] (pc : Pc Ptr) (node : Ptr) : Decidable (pc.Available node) :=
  inferInstanceAs (Decidable (_ ∨ _))

/-- A lock that is to be given back is counted. -/
theorem counted_of_discards {pc : Pc Ptr} {node : Ptr} (discards : pc.discards = some node) :
    pc.counted = some node := by
  cases pc with
  | extracted job => exact discards
  | marked job => exact discards
  | _ => cases discards

/-- A worker that waits for the mutex has a lock on the node of its job. -/
theorem counted_of_awaits {pc : Pc Ptr} {node : Ptr} (awaits : pc.awaits = some node) :
    pc.counted = some node := by
  cases pc with
  | beforeShared job => exact awaits
  | beforeLock job => exact awaits
  | _ => cases awaits

/-- A worker that waits for the mutex does not have it. -/
theorem mode_of_awaits {pc : Pc Ptr} {node : Ptr} (awaits : pc.awaits = some node) :
    pc.mode = .free := by
  cases pc with
  | beforeShared job => rfl
  | beforeLock job => rfl
  | _ => cases awaits

/-- A worker that has taken a job out goes to wait for the mutex with the lock of that job. -/
theorem ofJob_awaits (job : Job Ptr) : (ofJob job).awaits = job.node := by
  cases job <;> rfl

/-- Taking a job out is not a deletion. -/
theorem ofJob_deletes (job : Job Ptr) : (ofJob job).deletes = none := by
  cases job <;> rfl

/-- A removal ends with its deletion. -/
theorem afterRemoval_deletes (job : Job Ptr) : (afterRemoval job).deletes = none := by
  unfold afterRemoval
  split <;> rfl

/-- A worker that removes a node has the mutex for itself. -/
theorem mode_of_deletes {pc : Pc Ptr} {node : Ptr} (deletes : pc.deletes = some node) :
    pc.mode = .exclusive := by
  cases pc with
  | removing job target => rfl
  | _ => cases deletes

/-- No plain move leads to a deletion. -/
theorem Moves.deletes_after {pc pc' : Pc Ptr} (moves : pc.Moves pc') : pc'.deletes = none := by
  cases moves with
  | unmarked job => exact ofJob_deletes job
  | absent job => exact afterRemoval_deletes job
  | _ => rfl

/-- Neither does giving a lock back. -/
theorem Drops.deletes_after {pc pc' : Pc Ptr} {job : Job Ptr} (drops : pc.Drops job pc') :
    pc'.deletes = none := by
  cases drops <;> rfl

end Pc

namespace Workers

variable {ι Ptr : Type} [DecidableEq ι] [DecidableEq Ptr] {s s' : Workers ι Ptr}

/-- A removal of the node by this worker is blocked: another worker waits for the mutex with a lock
on the node, or a job of the node is queued and nobody else can take it out. -/
def Blocks (s : Workers ι Ptr) (i : ι) (node : Ptr) : Prop :=
  (∃ j, (s.pc j).awaits = some node) ∨
    ((∃ job ∈ s.fifo, job.node = some node) ∧ ∀ j, j ≠ i → ¬ (s.pc j).Available node)

/-- Some removal is blocked. -/
def Stalled (s : Workers ι Ptr) : Prop :=
  ∃ i, ∃ node ∈ (s.pc i).deletes, s.Blocks i node

/-- A worker waits in `RemoveNode1` for a node that is locked, and all its locks belong to jobs
that cannot advance: they are queued with no other worker free to take them out, or their workers
wait for the mutex. -/
def Deadlocked (s : Workers ι Ptr) : Prop :=
  ∃ i, ∃ node ∈ (s.pc i).deletes, (s.cell node).lockCount ≠ 0 ∧
    (∀ job ∈ s.fifo, job.node = some node → ∀ j, j ≠ i → (s.pc j).isFree = false) ∧
    ∀ j, (s.pc j).counted = some node → (s.pc j).awaits = some node

/-- The node that the worker marks in its next step. -/
def marks (s : Workers ι Ptr) (i : ι) (choice : Choice Ptr) : Option Ptr :=
  match s.pc i with
  | .handling job => s.removalTarget choice job
  | _ => none

/-- A worker takes a job out beside a removal: if the job is of another node and the removal waits
for a queued one, there is a third worker to take that out. -/
def LeavesWorker (s : Workers ι Ptr) (k : ι) : Prop :=
  s.pc k = .extracting → ∀ head ∈ s.fifo.head?, ∀ i, ∀ node ∈ (s.pc i).deletes,
    head.node ≠ some node → (∃ job ∈ s.fifo, job.node = some node) →
      ∃ j, j ≠ i ∧ j ≠ k ∧ (s.pc j).Available node

/-- A step that lets every removal end: `RemoveNode1` starts when nothing blocks it, and a job is
taken out beside it when a worker is left. -/
def LetsFinish (s : Workers ι Ptr) : WorkEvent ι Ptr → Prop
  | .run k choice => (∀ node ∈ s.marks k choice, ¬ s.Blocks k node) ∧ s.LeavesWorker k
  | _ => True

section Decidable

variable [Fintype ι]

instance (i : ι) (node : Ptr) : Decidable (s.Blocks i node) :=
  inferInstanceAs (Decidable (_ ∨ _))

instance (k : ι) : Decidable (s.LeavesWorker k) :=
  inferInstanceAs (Decidable (_ → _))

instance (event : WorkEvent ι Ptr) : Decidable (s.LetsFinish event) := by
  unfold LetsFinish
  split <;> infer_instance

end Decidable

section Marks

/-- The nodes that are being removed are in the table and marked. -/
def Marking (s : Workers ι Ptr) : Prop :=
  ∀ i, ∀ node ∈ (s.pc i).deletes, node ∈ s.table ∧ (s.cell node).marked = true

omit [DecidableEq ι] [DecidableEq Ptr] in
/-- Beside a worker that has the lock for itself nobody removes a node. -/
theorem Placed.deletes_eq_none (placed : s.Placed) {i j : ι}
    (exclusive : (s.pc i).mode = .exclusive) (other : j ≠ i) : (s.pc j).deletes = none := by
  cases deletes : (s.pc j).deletes with
  | none => rfl
  | some node =>
      have free := placed.excludes i j other.symm exclusive
      cases free.symm.trans (Pc.mode_of_deletes deletes)

omit [DecidableEq Ptr] in
/-- A worker goes on and removes no node, and no node is taken out or loses its mark. -/
theorem Marking.goto {i : ι} {pc : Pc Ptr} (marking : s.Marking)
    (places : s'.pc = Function.update s.pc i pc) (deletes : pc.deletes = none)
    (table : s'.table = s.table) (marks : ∀ node, (s'.cell node).marked = (s.cell node).marked) :
    s'.Marking := by
  intro j node deleted
  rw [places] at deleted
  by_cases same : j = i
  · subst same
    rw [Function.update_self, deletes] at deleted
    cases deleted
  · rw [Function.update_of_ne same] at deleted
    rw [table, marks]
    exact marking j node deleted

omit [DecidableEq Ptr] in
/-- A worker that has the lock for itself goes on. -/
theorem Marking.of_exclusive {i : ι} {pc : Pc Ptr} (placed : s.Placed)
    (exclusive : (s.pc i).mode = .exclusive) (places : s'.pc = Function.update s.pc i pc)
    (own : ∀ node ∈ pc.deletes, node ∈ s'.table ∧ (s'.cell node).marked = true) : s'.Marking := by
  intro j node deleted
  rw [places] at deleted
  by_cases same : j = i
  · subst same
    rw [Function.update_self] at deleted
    exact own node deleted
  · rw [Function.update_of_ne same, placed.deletes_eq_none exclusive same] at deleted
    cases deleted

omit [DecidableEq ι] in
/-- Locking and unlocking leave the marks alone. -/
theorem marked_changeLock (s : Workers ι Ptr) (other : Ptr) (change : Int) (node : Ptr) :
    ((s.changeLock other change).cell node).marked = (s.cell node).marked := by
  by_cases same : node = other
  · subst same
    simp [changeLock]
  · simp [changeLock, Function.update_of_ne same]

/-- Every step keeps the nodes under removal in the table and marked: as the lock excludes,
no other worker changes the table then. -/
theorem StepResult.marking {worker : Option ι} (result : StepResult s worker s')
    (placed : s.Placed) (marking : s.Marking) : s'.Marking := by
  cases result with
  | ignored => exact marking
  | queued free => exact marking
  | counted refers listed =>
      intro i node deletes
      obtain ⟨present, marked⟩ := marking i node deletes
      exact ⟨present, (marked_changeLock s _ 1 node).trans marked⟩
  | woken waiting => exact marking.goto rfl rfl rfl fun _ => rfl
  | extracted extracting fifo => exact marking.goto rfl rfl rfl fun _ => rfl
  | moved moves grants => exact marking.goto rfl moves.deletes_after rfl fun _ => rfl
  | dropped drops free => exact marking.goto rfl drops.deletes_after rfl fun _ => rfl
  | decremented drops refers listed =>
      exact marking.goto rfl drops.deletes_after rfl (marked_changeLock s _ (-1))
  | added handling free =>
      refine .of_exclusive placed (congrArg Pc.mode handling) rfl ?_
      exact nofun
  | @marked i job target leaderNode handling listed removes =>
      refine .of_exclusive placed (congrArg Pc.mode handling) rfl fun node deletes => ?_
      obtain rfl : target = node := Option.some.inj deletes
      refine ⟨listed, ?_⟩
      simp only [goto, markWillBeDeleted, Function.update_self]
  | @deleted i job target removing unlocked =>
      refine .of_exclusive placed (congrArg Pc.mode removing) rfl fun node deletes => ?_
      cases (Pc.afterRemoval_deletes job).symm.trans deletes

end Marks

section Producers

/-- A producer makes at most a job of a node that is not marked. -/
structure Supplied (s s' : Workers ι Ptr) : Prop where
  pc : s'.pc = s.pc
  fifo : ∀ job ∈ s'.fifo, job ∈ s.fifo ∨ ∀ node ∈ job.node, (s.cell node).marked = false

omit [DecidableEq ι] [DecidableEq Ptr] in
/-- A producer may do nothing. -/
theorem Supplied.refl (s : Workers ι Ptr) : Supplied s s :=
  ⟨rfl, fun _ => Or.inl⟩

omit [DecidableEq ι] [DecidableEq Ptr] in
/-- A producer that queues a job of an unmarked node. -/
theorem Supplied.of_append {job : Job Ptr} (pc : s'.pc = s.pc) (fifo : s'.fifo = s.fifo ++ [job])
    (unmarked : ∀ node ∈ job.node, (s.cell node).marked = false) : Supplied s s' := by
  refine ⟨pc, fun other member => ?_⟩
  rw [fifo] at member
  rcases List.mem_append.mp member with old | new
  · exact Or.inl old
  · obtain rfl := List.mem_singleton.mp new
    exact Or.inr unmarked

omit [DecidableEq ι] in
/-- `AddJobForWorkerPrivate` tests the mark before it locks the node. -/
theorem addJobForWorkerPrivate_supplied (job : Job Ptr)
    (added : s.addJobForWorkerPrivate job = some s') : Supplied s s' := by
  unfold addJobForWorkerPrivate at added
  split at added
  · rename_i free
    cases added
    exact .of_append rfl rfl fun node refers => nomatch free.symm.trans refers
  · rename_i target refers
    obtain ⟨listed, ⟨⟩⟩ := Option.ite_none_right_eq_some.mp added
    split
    · exact .refl s
    · rename_i unmarked
      refine .of_append rfl rfl fun node other => ?_
      obtain rfl : target = node := Option.some.inj (refers.symm.trans other)
      exact Bool.eq_false_iff.mpr unmarked

omit [DecidableEq ι] in
/-- `ReceiveFromSocketAndInform` makes the same test. -/
theorem receiveFromSocketAndInform_supplied {node : Ptr} {request : Option LockedRequest}
    (received : s.receiveFromSocketAndInform node request = some s') : Supplied s s' := by
  obtain ⟨listed, ⟨⟩⟩ := Option.ite_none_right_eq_some.mp received
  split
  · exact .refl s
  · rename_i unmarked
    split
    · refine .of_append rfl rfl fun other refers => ?_
      obtain rfl : node = other := Option.some.inj refers
      exact Bool.eq_false_iff.mpr unmarked
    · exact .refl s

/-- The steps that are not of workers supply jobs and do nothing else. -/
theorem next_supplied [Fintype ι] {event : WorkEvent ι Ptr} (produced : workerOf event = none)
    (stepped : s.next event = some s') : Supplied s s' := by
  cases event with
  | receiveFromSocketAndInform node request => exact receiveFromSocketAndInform_supplied stepped
  | addInternalForWorker request node =>
      exact addJobForWorkerPrivate_supplied (.internal request node) stepped
  | addConnectForWorker => exact addJobForWorkerPrivate_supplied .connection stepped
  | run worker choice => cases produced

omit [DecidableEq ι] [DecidableEq Ptr] in
/-- Producers block no removal. -/
theorem Supplied.blocks {i : ι} {node : Ptr} (supplied : Supplied s s')
    (marked : (s.cell node).marked = true) (blocks : s'.Blocks i node) : s.Blocks i node := by
  unfold Blocks at blocks ⊢
  rw [supplied.pc] at blocks
  refine blocks.imp_right (And.imp_left ?_)
  rintro ⟨job, member, refers⟩
  refine ⟨job, ?_, refers⟩
  rcases supplied.fifo job member with old | unmarked
  · exact old
  · cases (unmarked node refers).symm.trans marked

end Producers

section Finish

variable [Fintype ι]

/-- What a worker can do while another one removes a node: take a job out, or go on in a way that
leaves the jobs of the node a way on. -/
inductive Beside (s : Workers ι Ptr) (k : ι) (node : Ptr) : Workers ι Ptr → Prop where
  | extracted {job : Job Ptr} {rest : List (Job Ptr)} (extracting : s.pc k = .extracting)
      (fifo : s.fifo = job :: rest) :
      Beside s k node ({ s with fifo := rest }.goto k (.extracted job))
  | kept {s' : Workers ι Ptr} {pc : Pc Ptr} (places : s'.pc = Function.update s.pc k pc)
      (fifo : s'.fifo = s.fifo) (leaves : s.LeavesWorker k) (deletes : pc.deletes = none)
      (awaits : pc.awaits = some node → (s.pc k).awaits = some node)
      (available : (s.pc k).Available node → pc.Available node) : Beside s k node s'

omit [DecidableEq Ptr] [Fintype ι] in
/-- A worker that becomes free. -/
theorem Beside.of_free {k : ι} {node : Ptr} {old pc : Pc Ptr} (place : s.pc k = old)
    (busy : old ≠ .extracting) (places : s'.pc = Function.update s.pc k pc)
    (fifo : s'.fifo = s.fifo) (free : pc.isFree = true) : Beside s k node s' := by
  have leaves : s.LeavesWorker k := fun extracting => absurd (place.symm.trans extracting) busy
  cases pc with
  | waiting => exact .kept places fifo leaves rfl nofun fun _ => Or.inl rfl
  | extracting => exact .kept places fifo leaves rfl nofun fun _ => Or.inl rfl
  | _ => cases free

omit [DecidableEq ι] [Fintype ι] in
/-- `decrementLock2` moves no worker and leaves the queue alone. -/
theorem decrementLock2_frame {job : Job Ptr} (decremented : s.decrementLock2 job = some s') :
    s'.pc = s.pc ∧ s'.fifo = s.fifo := by
  unfold decrementLock2 at decremented
  split at decremented
  · cases decremented
    exact ⟨rfl, rfl⟩
  · obtain ⟨-, ⟨⟩⟩ := Option.ite_none_right_eq_some.mp decremented
    exact ⟨rfl, rfl⟩

/-- A worker tests the mark beside a removal: a job of the node passes no more, and its lock
is given back without the mutex. -/
theorem advance_extracted_beside {k : ι} {node : Ptr} {job : Job Ptr} {choice : Choice Ptr}
    (place : s.pc k = .extracted job) (marked : (s.cell node).marked = true)
    (stepped : s.advance k choice = some s') : Beside s k node s' := by
  have leaves : s.LeavesWorker k := fun extracting => nomatch place.symm.trans extracting
  have goes (different : job.node ≠ some node) : Beside s k node (s.goto k (.ofJob job)) := by
    refine .kept rfl rfl leaves (Pc.ofJob_deletes job) ?_ ?_
    · rw [Pc.ofJob_awaits]
      exact fun refers => absurd refers different
    · rw [place]
      rintro (⟨⟨⟩⟩ | discards)
      exact absurd discards different
  simp only [advance, place] at stepped
  split at stepped
  · rename_i none
    cases stepped
    exact goes fun refers => nomatch none.symm.trans refers
  · rename_i target refers
    obtain ⟨-, ⟨⟩⟩ := Option.ite_none_right_eq_some.mp stepped
    split
    · refine .kept rfl rfl leaves rfl nofun ?_
      rw [place]
      exact Or.imp_left nofun
    · rename_i unmarked
      refine goes fun same => unmarked ?_
      rw [Option.some.inj (refers.symm.trans same)]
      exact marked

/-- A worker goes on beside a removal: the mutex keeps it from everything but the queue, the test
of the mark, and a connection it could not read. -/
theorem advance_beside {i k : ι} {node : Ptr} {choice : Choice Ptr} (placed : s.Placed)
    (exclusive : (s.pc i).mode = .exclusive) (other : k ≠ i)
    (marked : (s.cell node).marked = true) (stepped : s.advance k choice = some s') :
    Beside s k node s' := by
  have free : (s.pc k).mode = .free := placed.excludes i k other.symm exclusive
  have unshared : ¬ MayShare fun i => (s.pc i).mode := fun may => may i exclusive
  have unlocked : ¬ MayLock fun i => (s.pc i).mode := fun may =>
    nomatch exclusive.symm.trans (may i)
  cases place : s.pc k with
  | waiting =>
      simp only [advance, place] at stepped
      split at stepped
      · cases stepped
      · cases stepped
        exact .of_free place nofun rfl rfl rfl
  | extracting =>
      simp only [advance, place] at stepped
      split at stepped
      · rename_i empty
        cases stepped
        refine .kept rfl rfl (fun _ head first => ?_) rfl nofun fun _ => Or.inl rfl
        rw [empty] at first
        cases first
      · cases stepped
        exact .extracted place ‹_›
  | extracted job => exact advance_extracted_beside place marked stepped
  | marked job =>
      simp only [advance, place] at stepped
      obtain ⟨middle, decremented, rfl⟩ := Option.map_eq_some_iff.mp stepped
      obtain ⟨pc, fifo⟩ := decrementLock2_frame decremented
      exact .of_free place nofun (congrArg (Function.update · k _) pc) fifo rfl
  | beforeShared job =>
      simp only [advance, place, if_neg unshared] at stepped
      obtain ⟨-, ⟨⟩⟩ := Option.ite_none_right_eq_some.mp stepped
      exact .of_free place nofun rfl rfl rfl
  | beforeLock job =>
      simp only [advance, place, if_neg unlocked] at stepped
      cases stepped
  | afterShared job added =>
      simp only [advance, place, if_neg unshared] at stepped
      cases stepped
  | _ =>
      rw [place] at free
      cases free

omit [DecidableEq Ptr] [Fintype ι] in
/-- A worker that leaves the queue alone and the jobs of the node a way on blocks nothing:
what is blocked afterwards was blocked before. -/
theorem Blocks.of_goto {i k : ι} {node : Ptr} {pc : Pc Ptr} (blocks : s'.Blocks i node)
    (places : s'.pc = Function.update s.pc k pc) (fifo : s'.fifo = s.fifo)
    (awaits : pc.awaits = some node → (s.pc k).awaits = some node)
    (available : (s.pc k).Available node → pc.Available node) : s.Blocks i node := by
  unfold Blocks at blocks
  rw [places, fifo] at blocks
  rcases blocks with ⟨j, waits⟩ | ⟨queued, unavailable⟩
  · refine Or.inl ⟨j, ?_⟩
    by_cases same : j = k
    · subst same
      rw [Function.update_self] at waits
      exact awaits waits
    · rwa [Function.update_of_ne same] at waits
  · refine Or.inr ⟨queued, fun j other free => unavailable j other ?_⟩
    by_cases same : j = k
    · subst same
      rw [Function.update_self]
      exact available free
    · rwa [Function.update_of_ne same]

omit [DecidableEq ι] [DecidableEq Ptr] [Fintype ι] in
/-- What taking a job out needs beside one removal: the job is of the node, no job of the
node is left behind it, or a third worker is there. -/
theorem leavesWorker_iff {i k : ι} {node : Ptr} {job : Job Ptr} {rest : List (Job Ptr)}
    (extracting : s.pc k = .extracting) (fifo : s.fifo = job :: rest)
    (removing : (s.pc i).deletes = some node) (only : ∀ j, j ≠ i → (s.pc j).deletes = none) :
    s.LeavesWorker k ↔ (job.node ≠ some node → (∃ late ∈ rest, late.node = some node) →
      ∃ j, j ≠ i ∧ j ≠ k ∧ (s.pc j).Available node) := by
  constructor
  · rintro leaves own ⟨late, later, refers⟩
    refine leaves extracting job (by rw [fifo]; rfl) i node removing own ⟨late, ?_, refers⟩
    exact fifo ▸ List.mem_cons_of_mem job later
  · intro left _ head first remover target deletes own queued
    have same : remover = i := by
      by_contra different
      cases (only remover different).symm.trans deletes
    subst same
    obtain rfl : node = target := Option.some.inj (removing.symm.trans deletes)
    rw [fifo] at first queued
    obtain rfl : job = head := Option.some.inj first
    obtain ⟨late, member, refers⟩ := queued
    refine left own ⟨late, ?_, refers⟩
    rcases List.mem_cons.mp member with rfl | later
    · exact absurd refers own
    · exact later

omit [DecidableEq Ptr] [Fintype ι] in
/-- Who can take jobs out of the queue after one was. -/
theorem available_extracted_iff {k : ι} {node : Ptr} {job : Job Ptr} (j : ι) :
    (Function.update s.pc k (.extracted job) j).Available node ↔
      if j = k then job.node = some node else (s.pc j).Available node := by
  split
  · subst ‹j = k›
    rw [Function.update_self]
    exact ⟨fun available => available.resolve_left nofun, Or.inr⟩
  · rw [Function.update_of_ne ‹_›]

omit [DecidableEq Ptr] [Fintype ι] in
/-- A job that is taken out beside a removal blocks it exactly if no worker is left for the
queued jobs of the node. -/
theorem blocks_extracted_iff {i k : ι} {node : Ptr} {job : Job Ptr} {rest : List (Job Ptr)}
    (extracting : s.pc k = .extracting) (fifo : s.fifo = job :: rest) (other : k ≠ i)
    (removing : (s.pc i).deletes = some node) (only : ∀ j, j ≠ i → (s.pc j).deletes = none)
    (clear : ¬ s.Blocks i node) :
    ({ s with fifo := rest }.goto k (.extracted job)).Blocks i node ↔ ¬ s.LeavesWorker k := by
  have unawaited (j : ι) : (Function.update s.pc k (.extracted job) j).awaits ≠ some node := by
    intro waits
    by_cases same : j = k
    · subst same
      rw [Function.update_self] at waits
      cases waits
    · rw [Function.update_of_ne same] at waits
      exact clear (Or.inl ⟨j, waits⟩)
  have blocks_iff : ({ s with fifo := rest }.goto k (.extracted job)).Blocks i node ↔
      (∃ late ∈ rest, late.node = some node) ∧
        ∀ j, j ≠ i → ¬ if j = k then job.node = some node else (s.pc j).Available node := by
    simp only [Blocks, goto, available_extracted_iff]
    exact or_iff_right (not_exists.mpr unawaited)
  rw [blocks_iff, leavesWorker_iff extracting fifo removing only]
  constructor
  · rintro ⟨queued, unavailable⟩ left
    have own : job.node ≠ some node := by simpa using unavailable k other
    obtain ⟨j, notRemover, notTaker, available⟩ := left own queued
    exact unavailable j notRemover (by rwa [if_neg notTaker])
  · intro stuck
    simp only [Classical.not_imp, not_exists, not_and] at stuck
    obtain ⟨own, queued, unavailable⟩ := stuck
    refine ⟨queued, fun j notRemover available => ?_⟩
    split at available
    · exact own available
    · exact unavailable j notRemover ‹_› available

omit [DecidableEq Ptr] [Fintype ι] in
/-- A worker beside a removal blocks it exactly if it takes a job out and leaves no worker. -/
theorem Beside.blocks_iff {i k : ι} {node : Ptr} (beside : Beside s k node s') (other : k ≠ i)
    (removing : (s.pc i).deletes = some node) (only : ∀ j, j ≠ i → (s.pc j).deletes = none)
    (clear : ¬ s.Blocks i node) : s'.Blocks i node ↔ ¬ s.LeavesWorker k := by
  cases beside with
  | extracted extracting fifo =>
      exact blocks_extracted_iff extracting fifo other removing only clear
  | kept places fifo leaves deletes awaits available =>
      exact iff_of_false (fun blocks => clear (blocks.of_goto places fifo awaits available))
        fun stuck => stuck leaves

omit [DecidableEq Ptr] [Fintype ι] in
/-- The places after a worker has gone to one where it removes nothing. -/
theorem deletes_goto {k : ι} {pc : Pc Ptr} (places : s'.pc = Function.update s.pc k pc)
    (deletes : pc.deletes = none) (j : ι) :
    (s'.pc j).deletes = if j = k then none else (s.pc j).deletes := by
  rw [places]
  split
  · subst ‹j = k›
    rw [Function.update_self, deletes]
  · rw [Function.update_of_ne ‹_›]

omit [DecidableEq Ptr] [Fintype ι] in
/-- A step beside a removal does not begin or end another one. -/
theorem Beside.deletes {k : ι} {node : Ptr} (beside : Beside s k node s') (j : ι) :
    (s'.pc j).deletes = if j = k then none else (s.pc j).deletes := by
  cases beside with
  | extracted extracting fifo => exact deletes_goto rfl rfl j
  | kept places fifo leaves deletes awaits available => exact deletes_goto places deletes j

omit [Fintype ι] in
/-- Only the locked part starts a removal. -/
theorem StepResult.deletes {k : ι} (result : StepResult s (some k) s')
    (elsewhere : ∀ job, s.pc k ≠ .handling job) (j : ι) :
    (s'.pc j).deletes = if j = k then none else (s.pc j).deletes := by
  cases result with
  | woken waiting => exact deletes_goto rfl rfl j
  | extracted extracting fifo => exact deletes_goto rfl rfl j
  | moved moves grants => exact deletes_goto rfl moves.deletes_after j
  | dropped drops free => exact deletes_goto rfl drops.deletes_after j
  | decremented drops refers listed => exact deletes_goto rfl drops.deletes_after j
  | added handling free => exact absurd handling (elsewhere _)
  | marked handling listed removes => exact absurd handling (elsewhere _)
  | deleted removing unlocked => exact deletes_goto rfl (Pc.afterRemoval_deletes _) j

omit [DecidableEq ι] [DecidableEq Ptr] [Fintype ι] in
/-- With one removal under way, that is the one that can be blocked. -/
theorem stalled_iff {i : ι} {node : Ptr} (removing : (s.pc i).deletes = some node)
    (only : ∀ j, j ≠ i → (s.pc j).deletes = none) : s.Stalled ↔ s.Blocks i node := by
  constructor
  · rintro ⟨j, other, deletes, blocks⟩
    have same : j = i := by
      by_contra different
      cases (only j different).symm.trans deletes
    subst same
    obtain rfl : node = other := Option.some.inj (removing.symm.trans deletes)
    exact blocks
  · exact fun blocks => ⟨i, node, removing, blocks⟩

omit [DecidableEq ι] [DecidableEq Ptr] [Fintype ι] in
/-- Without a removal nothing is blocked. -/
theorem not_stalled (nobody : ∀ i, (s.pc i).deletes = none) : ¬ s.Stalled := by
  rintro ⟨i, node, deletes, -⟩
  cases (nobody i).symm.trans deletes

/-- A step of a worker beside a removal leaves it unblocked exactly if the step lets it
finish. Only taking a job out can do harm, as the mutex is taken and the node is marked. -/
theorem not_stalled_beside_iff {i k : ι} {node : Ptr} {choice : Choice Ptr} (placed : s.Placed)
    (marking : s.Marking) (clear : ¬ s.Stalled) (removing : (s.pc i).deletes = some node)
    (other : k ≠ i) (stepped : s.advance k choice = some s') :
    ¬ s'.Stalled ↔ s.LetsFinish (.run k choice) := by
  have exclusive := Pc.mode_of_deletes removing
  have only : ∀ j, j ≠ i → (s.pc j).deletes = none :=
    fun j => placed.deletes_eq_none exclusive
  have beside := advance_beside placed exclusive other (marking i node removing).2 stepped
  have unmarked : s.marks k choice = none := by
    unfold marks
    split
    · rename_i handling
      cases (placed.excludes i k other.symm exclusive).symm.trans (congrArg Pc.mode handling)
    · rfl
  have removing' : (s'.pc i).deletes = some node := by
    rw [beside.deletes, if_neg other.symm, removing]
  have only' : ∀ j, j ≠ i → (s'.pc j).deletes = none := by
    intro j different
    rw [beside.deletes, only j different, ite_self]
  rw [stalled_iff removing only] at clear
  rw [stalled_iff removing' only', beside.blocks_iff other removing only clear, not_not,
    LetsFinish, unmarked]
  exact ⟨fun leaves => ⟨nofun, leaves⟩, And.right⟩

omit [Fintype ι] in
/-- Marking a node blocks its removal exactly if it was blocked before. -/
theorem blocks_marked_iff {k : ι} {job : Job Ptr} {target : Ptr} {leaderNode : Option Ptr}
    (handling : s.pc k = .handling job) :
    (({ s with leaderNode := leaderNode }.markWillBeDeleted target).goto k
      (.removing job target)).Blocks k target ↔ s.Blocks k target := by
  constructor
  · intro blocks
    refine blocks.of_goto rfl rfl nofun ?_
    rw [handling]
    rintro (⟨⟨⟩⟩ | ⟨⟨⟩⟩)
  · intro blocks
    have back : s.pc = Function.update (Function.update s.pc k (.removing job target)) k
        (.handling job) := by
      rw [Function.update_idem, ← handling, Function.update_eq_self]
    refine blocks.of_goto back rfl nofun ?_
    simp only [goto, Function.update_self]
    rintro (⟨⟨⟩⟩ | ⟨⟨⟩⟩)

/-- A step of a worker when no node is being removed can only block a removal by starting
one whose node has jobs in the wrong places. -/
theorem not_stalled_start_iff {k : ι} {choice : Choice Ptr}
    (nobody : ∀ i, (s.pc i).deletes = none) (stepped : s.advance k choice = some s') :
    ¬ s'.Stalled ↔ s.LetsFinish (.run k choice) := by
  have leaves : s.LeavesWorker k := fun _ _ _ i _ deletes =>
    nomatch (nobody i).symm.trans deletes
  by_cases somewhere : ∃ job, s.pc k = .handling job
  · obtain ⟨job, handling⟩ := somewhere
    have target : s.marks k choice = s.removalTarget choice job := by
      simp only [marks, handling]
    have locked : LockedResult s k job (s.marks k choice) s' := by
      simp only [advance, handling] at stepped
      rw [target]
      exact handleLocked_locked stepped
    rw [LetsFinish]
    generalize s.marks k choice = marks at locked
    -- nothing is marked
    have ended {s' : Workers ι Ptr} (deletes : ∀ j, (s'.pc j).deletes =
        if j = k then none else (s.pc j).deletes) :
        ¬ s'.Stalled ↔ (∀ node ∈ (none : Option Ptr), ¬ s.Blocks k node) ∧ s.LeavesWorker k := by
      refine iff_of_true (not_stalled fun j => ?_) ⟨nofun, leaves⟩
      rw [deletes, nobody, ite_self]
    cases locked with
    | @marked target leaderNode listed removes =>
        have only (j : ι) (other : j ≠ k) :
            (Function.update s.pc k (.removing job target) j).deletes = none := by
          rw [Function.update_of_ne other]
          exact nobody j
        have removing :
            (Function.update s.pc k (.removing job target) k).deletes = some target := by
          rw [Function.update_self]
          rfl
        rw [stalled_iff removing only, blocks_marked_iff handling]
        simp [leaves]
    | refused => exact ended (deletes_goto rfl rfl)
    | known connects => exact ended (deletes_goto rfl rfl)
    | added free => exact ended (deletes_goto rfl rfl)
    | absent leaderNode => exact ended (deletes_goto rfl (Pc.afterRemoval_deletes job))
  · have elsewhere := not_exists.mp somewhere
    refine iff_of_true (not_stalled fun j => ?_) ⟨?_, leaves⟩
    · rw [(advance_result stepped).deletes elsewhere, nobody, ite_self]
    · unfold marks
      split
      · exact absurd ‹_› (elsewhere _)
      · exact nofun

/-- The step with which a removal ends leaves none that could be blocked. -/
theorem not_stalled_end_iff {k : ι} {node : Ptr} {choice : Choice Ptr} (placed : s.Placed)
    (removing : (s.pc k).deletes = some node) (stepped : s.advance k choice = some s') :
    ¬ s'.Stalled ↔ s.LetsFinish (.run k choice) := by
  have elsewhere : ∀ job, s.pc k ≠ .handling job := by
    intro job handling
    rw [handling] at removing
    cases removing
  refine iff_of_true (not_stalled fun j => ?_) ⟨?_, fun extracting => ?_⟩
  · rw [(advance_result stepped).deletes elsewhere]
    split
    · rfl
    · exact placed.deletes_eq_none (Pc.mode_of_deletes removing) ‹_›
  · unfold marks
    split
    · exact absurd ‹_› (elsewhere _)
    · exact nofun
  · rw [extracting] at removing
    cases removing

/-- A step leaves no removal blocked exactly if it lets every removal finish, whoever takes
it. -/
theorem not_stalled_next_iff {event : WorkEvent ι Ptr} (placed : s.Placed) (marking : s.Marking)
    (clear : ¬ s.Stalled) (stepped : s.next event = some s') :
    ¬ s'.Stalled ↔ s.LetsFinish event := by
  have supplies (produced : workerOf event = none) : ¬ s'.Stalled := by
    have supplied := next_supplied produced stepped
    rintro ⟨i, node, deletes, blocks⟩
    rw [supplied.pc] at deletes
    exact clear ⟨i, node, deletes, supplied.blocks (marking i node deletes).2 blocks⟩
  cases event with
  | receiveFromSocketAndInform node request => exact iff_of_true (supplies rfl) trivial
  | addInternalForWorker request node => exact iff_of_true (supplies rfl) trivial
  | addConnectForWorker => exact iff_of_true (supplies rfl) trivial
  | run k choice =>
      by_cases somebody : ∃ i node, (s.pc i).deletes = some node
      · obtain ⟨i, node, removing⟩ := somebody
        by_cases same : k = i
        · subst same
          exact not_stalled_end_iff placed removing stepped
        · exact not_stalled_beside_iff placed marking clear removing same stepped
      · refine not_stalled_start_iff (fun i => ?_) stepped
        exact Option.eq_none_iff_forall_not_mem.mpr fun node deletes => somebody ⟨i, node, deletes⟩

omit [DecidableEq ι] in
/-- A node with jobs has one in the queue or with a worker. -/
theorem exists_of_jobsOf {node : Ptr} (jobs : s.jobsOf node ≠ 0) :
    (∃ job ∈ s.fifo, job.node = some node) ∨ ∃ j, (s.pc j).counted = some node := by
  by_contra nothing
  rw [not_or] at nothing
  refine jobs (jobsOf_eq_zero (fun job member refers => ?_) fun j counted => ?_)
  · exact nothing.1 ⟨job, member, refers⟩
  · exact nothing.2 ⟨j, counted⟩

omit [DecidableEq ι] in
/-- A deadlock is a removal that is blocked: the jobs of its node have no way on. -/
theorem Deadlocked.stalled (deadlocked : s.Deadlocked) (accounted : ∀ node, s.Accounted node)
    (marking : s.Marking) : s.Stalled := by
  obtain ⟨i, node, deletes, locked, queued, held⟩ := deadlocked
  have count := accounted node
  unfold Accounted at count
  rw [if_pos (marking i node deletes).1] at count
  refine ⟨i, node, deletes, ?_⟩
  by_cases waits : ∃ j, (s.pc j).counted = some node
  · obtain ⟨j, counted⟩ := waits
    exact Or.inl ⟨j, held j counted⟩
  · have jobs : s.jobsOf node ≠ 0 := fun none => locked (by rw [count, none]; rfl)
    obtain ⟨job, member, refers⟩ := (exists_of_jobsOf jobs).resolve_right waits
    refine Or.inr ⟨⟨job, member, refers⟩, fun j other available => ?_⟩
    rcases available with free | discards
    · cases (queued job member refers j other).symm.trans free
    · exact waits ⟨j, Pc.counted_of_discards discards⟩

/-- In every run the nodes under removal are in the table and marked. -/
theorem run_marking {table : List Ptr} {key : Ptr → NodeIdentifierKey}
    {leaderNode thisNode : Option Ptr} {trace : List (Step ι Ptr)}
    (run : (machine ι Ptr).Run (start table key leaderNode thisNode) trace s) : s.Marking := by
  refine run.invariant (fun _ s => s.Marking) (fun i node deletes => nomatch deletes) ?_
  exact fun run marking stepped => (step_result stepped).marking (run_placed run) marking

omit [Fintype ι] in
/-- A worker that waits for the mutex beside a removal does not go on, since the removing
worker has the mutex for itself. -/
theorem StepResult.awaits_eq_none {i j : ι} (result : StepResult s (some j) s')
    (placed : s.Placed) (exclusive : (s.pc i).mode = .exclusive) (other : j ≠ i) :
    (s.pc j).awaits = none := by
  cases result with
  | woken waiting => exact congrArg Pc.awaits waiting
  | extracted extracting fifo => exact congrArg Pc.awaits extracting
  | moved moves grants =>
      have free := grants.eq_free placed.excludes other exclusive
      generalize s.pc j = pc at moves
      cases moves with
      | sharedBefore job => cases free
      | acquired job => cases free
      | _ => rfl
  | dropped drops free =>
      generalize s.pc j = pc at drops
      cases drops <;> rfl
  | decremented drops refers listed =>
      generalize s.pc j = pc at drops
      cases drops <;> rfl
  | added handling free => exact congrArg Pc.awaits handling
  | marked handling listed removes => exact congrArg Pc.awaits handling
  | deleted removing unlocked => exact congrArg Pc.awaits removing

omit [Fintype ι] in
/-- A step moves one worker at most. -/
theorem StepResult.pc_of_ne {worker : Option ι} {j : ι} (result : StepResult s worker s')
    (other : worker ≠ some j) : s'.pc j = s.pc j := by
  have elsewhere {i : ι} (different : some i ≠ some j) (pc : Pc Ptr) :
      Function.update s.pc i pc j = s.pc j :=
    Function.update_of_ne (fun same => different (congrArg some same.symm)) _ _
  cases result with
  | ignored => rfl
  | queued free => rfl
  | counted refers listed => rfl
  | _ => exact elsewhere other _

/-- A worker removes a node while another one waits for the mutex with a lock on it: no step takes
one of them on. -/
theorem StepResult.stuck {worker : Option ι} {i j : ι} {node : Ptr}
    (result : StepResult s worker s') (placed : s.Placed) (marking : s.Marking)
    (accounted : ∀ node, s.Accounted node)
    (removing : (s.pc i).deletes = some node) (waits : (s.pc j).awaits = some node) :
    s'.pc i = s.pc i ∧ s'.pc j = s.pc j := by
  have exclusive := Pc.mode_of_deletes removing
  have other : j ≠ i := by
    rintro rfl
    cases (Pc.mode_of_awaits waits).symm.trans exclusive
  constructor
  · refine result.pc_of_ne ?_
    rintro rfl
    rcases result.keeps_or_deletes with keeps | ⟨job, target, place, unlocked, -⟩
    · cases keeps.symm.trans removing
    · obtain rfl : target = node := by
        rw [place] at removing
        exact Option.some.inj removing
      have unused := (accounted target).unused (marking i target removing).1 unlocked
      exact (jobsOf_pos_of_counted (Pc.counted_of_awaits waits)).ne' unused
  · refine result.pc_of_ne ?_
    rintro rfl
    cases (result.awaits_eq_none placed exclusive other).symm.trans waits

/-- Such workers stay where they are for ever. -/
theorem run_stuck {table : List Ptr} {key : Ptr → NodeIdentifierKey}
    {leaderNode thisNode : Option Ptr} {trace more : List (Step ι Ptr)} {i j : ι} {node : Ptr}
    (run : (machine ι Ptr).Run (start table key leaderNode thisNode) trace s)
    (removing : (s.pc i).deletes = some node) (waits : (s.pc j).awaits = some node)
    (goesOn : (machine ι Ptr).Run s more s') : s'.pc i = s.pc i ∧ s'.pc j = s.pc j := by
  refine (goesOn.invariant (fun _ s' => (s'.Placed ∧ s'.Marking ∧ ∀ node, s'.Accounted node) ∧
    s'.pc i = s.pc i ∧ s'.pc j = s.pc j)
    ⟨⟨run_placed run, run_marking run, run_accounted run⟩, rfl, rfl⟩ ?_).2
  rintro trace u event effect - ⟨⟨placed, marking, accounted⟩, first, second⟩ stepped
  have result := step_result stepped
  have stuck := result.stuck placed marking accounted (first ▸ removing) (second ▸ waits)
  exact ⟨⟨result.placed placed, result.marking placed marking, result.accounted accounted⟩,
    stuck.1.trans first, stuck.2.trans second⟩

/-- For any number of workers and any interleaving: a run has no state in which a removal is blocked
if and only if every step lets the removals finish, and a run of such steps does not reach a state
in which a worker waits in `RemoveNode1` and every lock on the node belongs to a job that cannot
advance. -/
theorem removal_ends_iff {table : List Ptr} {key : Ptr → NodeIdentifierKey}
    {leaderNode thisNode : Option Ptr} {trace : List (Step ι Ptr)}
    (run : (machine ι Ptr).Run (start table key leaderNode thisNode) trace s) :
    ((∀ t ∈ trace, ¬ t.after.Stalled) ↔ ∀ t ∈ trace, t.before.LetsFinish t.event) ∧
      ((∀ t ∈ trace, t.before.LetsFinish t.event) → ¬ s.Deadlocked) := by
  have kept := run.forall_after_iff (I := fun s => ¬ s.Stalled)
    (P := fun t => t.before.LetsFinish t.event) (not_stalled fun _ => rfl)
    fun run clear stepped => by
      obtain ⟨s', next, rfl⟩ := Option.map_eq_some_iff.mp stepped
      exact not_stalled_next_iff (run_placed run) (run_marking run) clear next
  refine ⟨kept.1, fun finish deadlocked => ?_⟩
  exact kept.2 (kept.1.mpr finish) (deadlocked.stalled (run_accounted run) (run_marking run))

/-- Two heartbeats ask for the removal of the same node. A worker starts it, and another one
takes the second job out and drops it. -/
def droppedRequest (choice : Choice ℕ) : List (WorkEvent Bool ℕ) :=
  .addInternalForWorker .removeNode (some 1) :: .addInternalForWorker .removeNode (some 1) ::
    (List.replicate 8 (.run true choice) ++ List.replicate 4 (.run false choice) ++
      [.run true choice])

/-- The second request for the removal of a node is dropped, the node is removed and no
worker waits for ever. -/
theorem removal_ends_droppedRequest :
    ((machine Bool ℕ).execute ofLeader (droppedRequest ⟨true, .zero, 4⟩)).isSome ∧
      (∀ t ∈ (machine Bool ℕ).traceOf ofLeader (droppedRequest ⟨true, .zero, 4⟩),
        t.before.LetsFinish t.event) ∧
      ((machine Bool ℕ).stateOf ofLeader (droppedRequest ⟨true, .zero, 4⟩)).table = [0] ∧
      ¬ ((machine Bool ℕ).stateOf ofLeader (droppedRequest ⟨true, .zero, 4⟩)).Deadlocked := by
  have defined : ((machine Bool ℕ).execute ofLeader (droppedRequest ⟨true, .zero, 4⟩)).isSome := by
    decide
  have finish : ∀ t ∈ (machine Bool ℕ).traceOf ofLeader (droppedRequest ⟨true, .zero, 4⟩),
      t.before.LetsFinish t.event := by
    decide
  have run := run_traceOf (machine Bool ℕ) ofLeader (droppedRequest ⟨true, .zero, 4⟩) defined
  exact ⟨defined, finish, by decide, (removal_ends_iff run).2 finish⟩

/-- The same two requests, but the second is taken out before the node is marked. -/
def passedRequest (choice : Choice ℕ) : List (WorkEvent Bool ℕ) :=
  .addInternalForWorker .removeNode (some 1) :: .addInternalForWorker .removeNode (some 1) ::
    (List.replicate 3 (.run false choice) ++ List.replicate 8 (.run true choice))

/-- One worker waits until the other gives its lock on the node back, and that one waits for the
mutex: neither takes a step any more. -/
theorem removal_deadlocks :
    ∃ trace s, (machine Bool ℕ).Run ofLeader trace s ∧ s.Deadlocked ∧
      ∀ worker choice, s.advance worker choice = none := by
  refine ⟨_, _, run_traceOf (machine Bool ℕ) ofLeader (passedRequest ⟨true, .zero, 4⟩) (by decide),
    ⟨true, 1, rfl, by decide, by decide, by decide⟩, ?_⟩
  intro worker choice
  cases worker <;> rfl

end Finish

end Workers

end Tcp

end CppRaft
