import CppRaft.Tcp.Worker

/-!
# Lock counts and outstanding jobs

A job that refers to a node holds its lock count from the time it is made until the
worker has executed `decrementLock2`. The count is the number of such jobs in every state
of every run, whatever the workers do.
-/

namespace CppRaft

namespace Tcp

open Machine

namespace Pc

variable {Ptr : Type}

/-- The node of a job whose `decrementLock2` is still to come. -/
def counted : Pc Ptr → Option Ptr
  | extracted job => job.node
  | marked job => job.node
  | beforeShared job => job.node
  | before job => job.node
  | beforeLock job => job.node
  | locked job => job.node
  | _ => none

/-- A worker that moves on keeps the lock of its node. -/
theorem Moves.counted_eq {pc pc' : Pc Ptr} (moves : pc.Moves pc') : pc'.counted = pc.counted := by
  cases moves with
  | unmarked job => cases job <;> rfl
  | absent job =>
      unfold afterRemoval
      split <;> rfl
  | _ => rfl

/-- `decrementLock2` gives back the lock of the node of the job. -/
theorem Drops.counted_eq {pc pc' : Pc Ptr} {job : Job Ptr} (drops : pc.Drops job pc') :
    pc.counted = job.node ∧ pc'.counted = none := by
  cases drops <;> exact ⟨rfl, rfl⟩

/-- After a removal a worker has no lock to give back. -/
theorem afterRemoval_counted (job : Job Ptr) : (afterRemoval job).counted = none := by
  unfold afterRemoval
  split <;> rfl

end Pc

namespace Workers

variable {ι Ptr : Type} [DecidableEq ι] [DecidableEq Ptr] [Fintype ι] {s s' : Workers ι Ptr}

/-- The number of jobs that refer to a node, in the queue or with a worker that has not executed
`decrementLock2`. -/
def jobsOf (s : Workers ι Ptr) (node : Ptr) : ℕ :=
  s.fifo.countP (fun job => decide (job.node = some node)) +
    holders (fun i => (s.pc i).counted) node

/-- The lock count of a node in the table is the number of its jobs, and no job refers to a node
that is not in it. -/
def Accounted (s : Workers ι Ptr) (node : Ptr) : Prop :=
  if node ∈ s.table then (s.cell node).lockCount = s.jobsOf node else s.jobsOf node = 0

/-- A move of a worker changes the number of jobs of a node by what the worker counted
before and counts then. -/
theorem jobsOf_goto (s : Workers ι Ptr) (i : ι) (pc : Pc Ptr) (node : Ptr) :
    (s.goto i pc).jobsOf node + (if (s.pc i).counted = some node then 1 else 0) =
      s.jobsOf node + if pc.counted = some node then 1 else 0 := by
  have places : (fun j => ((s.goto i pc).pc j).counted) =
      Function.update (fun j => (s.pc j).counted) i pc.counted :=
    Function.comp_update Pc.counted s.pc i pc
  have held := holders_update (fun j => (s.pc j).counted) i pc.counted node
  rw [← places] at held
  unfold jobsOf
  rw [Nat.add_assoc, held, Nat.add_assoc]
  rfl

/-- A move that keeps the lock of the node does not change the number of jobs. -/
theorem jobsOf_goto_same {i : ι} {pc pc' : Pc Ptr} (place : s.pc i = pc)
    (same : pc'.counted = pc.counted) (node : Ptr) :
    (s.goto i pc').jobsOf node = s.jobsOf node := by
  have moved := jobsOf_goto s i pc' node
  rw [place, same] at moved
  exact Nat.add_right_cancel moved

omit [DecidableEq ι] in
/-- A queued job adds one to the number of jobs of its node. -/
theorem jobsOf_addElement (s : Workers ι Ptr) (job : Job Ptr) (node : Ptr) :
    (s.addElement job).jobsOf node =
      s.jobsOf node + if job.node = some node then 1 else 0 := by
  unfold jobsOf addElement
  rw [List.countP_append, List.countP_singleton, Nat.add_right_comm]
  simp only [decide_eq_true_eq]

omit [DecidableEq ι] in
/-- A step that changes neither the table nor a lock count nor the jobs of a node. -/
theorem Accounted.of_same {node : Ptr} (accounted : s.Accounted node)
    (listed : node ∈ s'.table ↔ node ∈ s.table)
    (count : (s'.cell node).lockCount = (s.cell node).lockCount)
    (jobs : s'.jobsOf node = s.jobsOf node) : s'.Accounted node := by
  unfold Accounted
  simp only [listed, count, jobs]
  exact accounted

omit [DecidableEq ι] [Fintype ι] in
/-- Only the lock count of the node itself changes. -/
theorem lockCount_changeLock (s : Workers ι Ptr) (other : Ptr) (change : Int) (node : Ptr) :
    ((s.changeLock other change).cell node).lockCount =
      (s.cell node).lockCount + if other = node then change else 0 := by
  by_cases same : other = node
  · subst same
    simp [changeLock]
  · simp [changeLock, same, Function.update_of_ne (Ne.symm same)]

omit [DecidableEq ι] [Fintype ι] in
/-- The mark for deletion leaves the lock counts alone. -/
theorem lockCount_markWillBeDeleted (s : Workers ι Ptr) (target node : Ptr) :
    ((s.markWillBeDeleted target).cell node).lockCount = (s.cell node).lockCount := by
  by_cases same : node = target
  · subst same
    simp [markWillBeDeleted]
  · simp [markWillBeDeleted, Function.update_of_ne same]

omit [DecidableEq ι] in
/-- A lock count that changes with the jobs of its node. -/
theorem Accounted.of_changeLock {node other : Ptr} {change : Int} (accounted : s.Accounted node)
    (listed : other ∈ s.table) (table : s'.table = s.table)
    (cell : s'.cell = (s.changeLock other change).cell)
    (jobs : (s'.jobsOf node : Int) = s.jobsOf node + if other = node then change else 0) :
    s'.Accounted node := by
  unfold Accounted at accounted ⊢
  rw [table, cell, lockCount_changeLock, jobs]
  split at accounted
  · rw [if_pos ‹_›, accounted]
  · have different : other ≠ node := fun same => ‹node ∉ s.table› (same ▸ listed)
    rw [if_neg different, accounted] at jobs
    rw [if_neg ‹_›]
    exact Int.ofNat.inj jobs

omit [DecidableEq ι] in
/-- A node that is new has no jobs. -/
theorem Accounted.of_added {node fresh : Ptr} {key : NodeIdentifierKey}
    (accounted : s.Accounted node) (free : fresh ∉ s.table) (table : s'.table = s.table ++ [fresh])
    (cell : s'.cell = Function.update s.cell fresh { key := key })
    (jobs : s'.jobsOf node = s.jobsOf node) : s'.Accounted node := by
  unfold Accounted at accounted ⊢
  rw [table, cell, jobs]
  by_cases same : node = fresh
  · subst same
    rw [if_neg free] at accounted
    rw [if_pos (List.mem_append_right _ List.mem_cons_self), Function.update_self, accounted]
    rfl
  · rw [Function.update_of_ne same]
    simpa only [List.mem_append, List.mem_singleton, same, or_false] using accounted

omit [DecidableEq ι] in
/-- A node is deleted when it has no jobs, so no job refers to a node outside the table
afterwards. -/
theorem Accounted.of_deleted {node target : Ptr} (accounted : s.Accounted node)
    (unlocked : (s.cell target).lockCount = 0)
    (table : s'.table = s.table.filter fun node => decide (node ≠ target))
    (cell : s'.cell = s.cell) (jobs : s'.jobsOf node = s.jobsOf node) : s'.Accounted node := by
  unfold Accounted at accounted ⊢
  rw [table, cell, jobs]
  by_cases same : node = target
  · subst same
    rw [if_neg (by simp)]
    split at accounted
    · exact Int.ofNat.inj (accounted.symm.trans unlocked)
    · exact accounted
  · simpa only [List.mem_filter, same, ne_eq, not_false_eq_true, decide_true, and_true]
      using accounted

/-- A job that was taken out of the queue is with the worker. -/
theorem jobsOf_extracted {i : ι} {job : Job Ptr} {rest : List (Job Ptr)}
    (extracting : s.pc i = .extracting) (fifo : s.fifo = job :: rest) (node : Ptr) :
    ({ s with fifo := rest }.goto i (.extracted job)).jobsOf node = s.jobsOf node := by
  have moved := jobsOf_goto { s with fifo := rest } i (.extracted job) node
  have taken : s.jobsOf node = { s with fifo := rest }.jobsOf node +
      if job.node = some node then 1 else 0 := by
    unfold jobsOf
    rw [fifo, List.countP_cons, Nat.add_right_comm]
    simp only [decide_eq_true_eq]
  rw [extracting] at moved
  exact moved.trans taken.symm

/-- `decrementLock2` takes one job from its node. -/
theorem jobsOf_decremented {i : ι} {job : Job Ptr} {other : Ptr} {pc : Pc Ptr}
    (drops : (s.pc i).Drops job pc) (refers : job.node = some other) (node : Ptr) :
    (((s.changeLock other (-1)).goto i pc).jobsOf node : Int) =
      s.jobsOf node + if other = node then -1 else 0 := by
  have moved : ((s.changeLock other (-1)).goto i pc).jobsOf node +
      (if (s.pc i).counted = some node then 1 else 0) =
        s.jobsOf node + if pc.counted = some node then 1 else 0 :=
    jobsOf_goto (s.changeLock other (-1)) i pc node
  rw [drops.counted_eq.1, drops.counted_eq.2, refers] at moved
  simp only [Option.some.injEq, reduceCtorEq, if_false, Nat.add_zero] at moved
  rw [← moved]
  split <;> push_cast <;> omega

/-- Every step keeps the accounts: the lock count of a node changes in the same step as the
number of its jobs, and by as much. -/
theorem StepResult.accounted {worker : Option ι} (result : StepResult s worker s')
    (accounted : ∀ node, s.Accounted node) (node : Ptr) : s'.Accounted node := by
  have kept := accounted node
  cases result with
  | ignored => exact kept
  | @queued job free =>
      refine kept.of_same Iff.rfl rfl ?_
      rw [jobsOf_addElement, free, if_neg (by simp), Nat.add_zero]
  | @counted job other refers listed =>
      refine kept.of_changeLock listed rfl rfl ?_
      have queued : ((s.changeLock other 1).addElement job).jobsOf node =
          s.jobsOf node + if job.node = some node then 1 else 0 :=
        jobsOf_addElement (s.changeLock other 1) job node
      rw [queued, refers]
      simp only [Option.some.injEq]
      split <;> rfl
  | woken waiting =>
      refine kept.of_same Iff.rfl rfl (jobsOf_goto_same waiting ?_ node)
      rfl
  | extracted extracting fifo =>
      exact kept.of_same Iff.rfl rfl (jobsOf_extracted extracting fifo node)
  | moved moves grants =>
      exact kept.of_same Iff.rfl rfl (jobsOf_goto_same rfl moves.counted_eq node)
  | dropped drops free =>
      refine kept.of_same Iff.rfl rfl (jobsOf_goto_same rfl ?_ node)
      rw [drops.counted_eq.1, drops.counted_eq.2, free]
  | decremented drops refers listed =>
      exact kept.of_changeLock listed rfl rfl (jobsOf_decremented drops refers node)
  | added handling free =>
      refine kept.of_added free rfl rfl (jobsOf_goto_same handling ?_ node)
      rfl
  | marked handling listed removes =>
      refine kept.of_same Iff.rfl (lockCount_markWillBeDeleted _ _ node)
        (jobsOf_goto_same handling ?_ node)
      rfl
  | @deleted i job target removing unlocked =>
      exact kept.of_deleted unlocked rfl rfl
        (jobsOf_goto_same removing (Pc.afterRemoval_counted job) node)

omit [DecidableEq ι] in
/-- At the start there are no jobs and no locks. -/
theorem start_accounted (table : List Ptr) (key : Ptr → NodeIdentifierKey)
    (leaderNode thisNode : Option Ptr) (node : Ptr) :
    (start table key leaderNode thisNode : Workers ι Ptr).Accounted node := by
  have unused : (start table key leaderNode thisNode : Workers ι Ptr).jobsOf node = 0 :=
    (Nat.zero_add _).trans (holders_eq_zero fun _ => (Option.some_ne_none node).symm)
  unfold Accounted
  rw [unused]
  split <;> rfl

/-- The accounts of every state of a run. -/
theorem run_accounted {table : List Ptr} {key : Ptr → NodeIdentifierKey}
    {leaderNode thisNode : Option Ptr} {trace : List (Step ι Ptr)}
    (run : (machine ι Ptr).Run (start table key leaderNode thisNode) trace s) (node : Ptr) :
    s.Accounted node :=
  run.invariant (fun _ s => ∀ node, s.Accounted node)
    (start_accounted table key leaderNode thisNode)
    (fun _ accounted stepped => (step_result stepped).accounted accounted) node

omit [DecidableEq ι] in
/-- A node without jobs in the queue or with a worker counts zero. -/
theorem jobsOf_eq_zero {node : Ptr} (queued : ∀ job ∈ s.fifo, job.node ≠ some node)
    (held : ∀ i, (s.pc i).counted ≠ some node) : s.jobsOf node = 0 := by
  have none : s.fifo.countP (fun job => decide (job.node = some node)) = 0 :=
    List.countP_eq_zero.mpr fun job member refers => queued job member (of_decide_eq_true refers)
  unfold jobsOf
  rw [none, holders_eq_zero held]

/-- In every state of every run the lock count of a node in the table is the number of the jobs
that refer to it and wait for their `decrementLock2`; it is not negative, and it is zero when no
job refers to the node. -/
theorem lockCount_eq_jobsOf {table : List Ptr} {key : Ptr → NodeIdentifierKey}
    {leaderNode thisNode : Option Ptr} {trace : List (Step ι Ptr)}
    (run : (machine ι Ptr).Run (start table key leaderNode thisNode) trace s) {node : Ptr}
    (listed : node ∈ s.table) :
    (s.cell node).lockCount = s.jobsOf node ∧ 0 ≤ (s.cell node).lockCount ∧
      ((∀ job ∈ s.fifo, job.node ≠ some node) → (∀ i, (s.pc i).counted ≠ some node) →
        (s.cell node).lockCount = 0) := by
  have accounted := run_accounted run node
  unfold Accounted at accounted
  rw [if_pos listed] at accounted
  refine ⟨accounted, accounted ▸ Int.natCast_nonneg _, fun queued held => ?_⟩
  rw [accounted, jobsOf_eq_zero queued held]
  rfl

/-- Two workers of a leader at address 0 that has one other node, at address 1. -/
def ofLeader : Workers Bool ℕ :=
  start [0, 1] (fun node => .ofPort (.ofNat node)) (some 0) (some 0)

/-- A worker has taken one job of a node and the next one is in the queue. -/
def twoJobs (choice : Choice ℕ) : List (WorkEvent Bool ℕ) :=
  [.receiveFromSocketAndInform 1 none, .addInternalForWorker .removeNode (some 1),
    .run true choice, .run true choice]

/-- One job of a node with a worker and one in the queue: the lock count is two. -/
theorem lockCount_eq_jobsOf_twoJobs :
    ((machine Bool ℕ).execute ofLeader (twoJobs ⟨true, .zero, 2⟩)).isSome ∧
      (((machine Bool ℕ).stateOf ofLeader (twoJobs ⟨true, .zero, 2⟩)).cell 1).lockCount = 2 := by
  have defined : ((machine Bool ℕ).execute ofLeader (twoJobs ⟨true, .zero, 2⟩)).isSome := by decide
  have run := run_traceOf (machine Bool ℕ) ofLeader (twoJobs ⟨true, .zero, 2⟩) defined
  exact ⟨defined, (lockCount_eq_jobsOf run (by decide)).1.trans (by decide)⟩

end Workers

end Tcp

end CppRaft
