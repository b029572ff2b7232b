import CppRaft.Tcp.LockCount

/-!
# Workers and the nodes they use

A worker follows the pointer to the node of its job until the handler no longer needs it.
Until `decrementLock2` the lock count keeps the node, and under the exclusive lock nobody
else can delete it. Two windows are left: a `newNode` request is answered under a second
lock, after the first was released, and `oldLeaderDied` deletes the leader before it points
`m_pLeaderNode` to the node of the job. A run in which no node is deleted in one of them,
and only such a run, leaves every worker with a node in the table.
-/

namespace CppRaft

namespace Tcp

open Machine

/-- The node that the part after the lock answers. -/
def Job.answers {Ptr : Type} : Job Ptr → Option Ptr
  | .receive node (some (.newNode _)) => some node
  | _ => none

/-- The node that is the leader after the locked part. -/
def Job.promotes {Ptr : Type} : Job Ptr → Option Ptr
  | .receive node (some .oldLeaderDied) => some node
  | _ => none

namespace Pc

variable {Ptr : Type}

/-- The node of its job that the worker follows the pointer to, at this place or a later one. -/
def uses : Pc Ptr → Option Ptr
  | extracted job => job.node
  | marked job => job.node
  | beforeShared job => job.node
  | before job => job.node
  | beforeLock job => job.node
  | locked job => job.node
  | handling job => job.node
  | removing job _ => job.promotes
  | promoting job => job.node
  | handled job _ => job.answers
  | afterShared job _ => job.answers
  | after job _ => job.answers
  | _ => none

/-- The node that the worker deletes in its next step. -/
def deletes : Pc Ptr → Option Ptr
  | removing _ target => some target
  | _ => none

/-- The node that the worker makes the leader after a deletion. -/
def promotes : Pc Ptr → Option Ptr
  | removing job _ => job.promotes
  | _ => none

/-- The node that a worker between its two locks has yet to answer. -/
def answers : Pc Ptr → Option Ptr
  | afterShared job _ => job.answers
  | _ => none

end Pc

namespace Job

variable {Ptr : Type}

/-- The node that is answered is the node of the job. -/
theorem node_of_answers {job : Job Ptr} {node : Ptr} (answers : job.answers = some node) :
    job.node = some node := by
  unfold Job.answers at answers
  split at answers
  · exact answers
  · cases answers

/-- The node that is made the leader is the node of the job. -/
theorem node_of_promotes {job : Job Ptr} {node : Ptr} (promotes : job.promotes = some node) :
    job.node = some node := by
  unfold Job.promotes at promotes
  split at promotes
  · exact promotes
  · cases promotes

end Job

namespace Pc

variable {Ptr : Type}

/-- Answering a node is using it. -/
theorem uses_of_answers {pc : Pc Ptr} {node : Ptr} (answers : pc.answers = some node) :
    pc.uses = some node := by
  cases pc <;> first | exact answers | cases answers

/-- After a removal a worker can only use the node of its job. -/
theorem node_of_uses_afterRemoval {job : Job Ptr} {node : Ptr}
    (uses : (afterRemoval job).uses = some node) : job.node = some node := by
  unfold afterRemoval at uses
  split at uses
  · exact uses
  · exact Job.node_of_answers uses

/-- A removal goes on with the node that it makes the leader. -/
theorem uses_afterRemoval {job : Job Ptr}
    (removes : ∀ node key, job ≠ .receive node (some (.newNode key))) :
    (afterRemoval job).uses = job.promotes := by
  unfold afterRemoval
  split
  · rfl
  · rename_i other
    have silent : job.answers = none := by
      unfold Job.answers
      split
      · exact absurd rfl (removes _ _)
      · rfl
    have keeps : job.promotes = none := by
      unfold Job.promotes
      split
      · exact absurd rfl (other _)
      · rfl
    exact silent.trans keeps.symm

/-- A worker that moves on does not begin to use a node. -/
theorem Moves.uses_of {pc pc' : Pc Ptr} (moves : pc.Moves pc') {node : Ptr}
    (uses : pc'.uses = some node) : pc.uses = some node := by
  cases moves with
  | unmarked job => cases job <;> exact uses
  | absent job => exact node_of_uses_afterRemoval uses
  | promoted job => exact Job.node_of_answers uses
  | _ => first | exact uses | cases uses

/-- A worker that gives the lock of its node back does not begin to use one. -/
theorem Drops.uses_of {pc pc' : Pc Ptr} {job : Job Ptr} (drops : pc.Drops job pc') {node : Ptr}
    (uses : pc'.uses = some node) : pc.uses = some node := by
  cases drops <;> first | exact uses | cases uses

/-- A plain move of a worker is not a deletion. -/
theorem Moves.deletes_eq {pc pc' : Pc Ptr} (moves : pc.Moves pc') : pc.deletes = none := by
  cases moves <;> rfl

/-- Giving a lock back is not a deletion. -/
theorem Drops.deletes_eq {pc pc' : Pc Ptr} {job : Job Ptr} (drops : pc.Drops job pc') :
    pc.deletes = none := by
  cases drops <;> rfl

/-- A worker removes a node for a request to remove one. -/
def Removes : Pc Ptr → Prop
  | removing job _ => ∀ node key, job ≠ .receive node (some (.newNode key))
  | _ => True

/-- The place after a removal is one of a request to remove. -/
theorem afterRemoval_removes (job : Job Ptr) : (afterRemoval job).Removes := by
  unfold afterRemoval
  split <;> trivial

/-- A worker that moves on still only removes a node if it was asked to. -/
theorem Moves.removes {pc pc' : Pc Ptr} (moves : pc.Moves pc') : pc'.Removes := by
  cases moves with
  | unmarked job => cases job <;> trivial
  | absent job => exact afterRemoval_removes job
  | _ => trivial

/-- The same for a worker that gives a lock back. -/
theorem Drops.removes {pc pc' : Pc Ptr} {job : Job Ptr} (drops : pc.Drops job pc') :
    pc'.Removes := by
  cases drops <;> trivial

/-- A worker that has nothing of the lock uses a node that its job counts, or one that it has yet
to answer. -/
theorem counted_or_answers {pc : Pc Ptr} {node : Ptr} (free : pc.mode = .free)
    (uses : pc.uses = some node) : pc.counted = some node ∨ pc.answers = some node := by
  cases pc with
  | afterShared job added => exact Or.inr uses
  | _ => first | exact Or.inl uses | cases uses | cases free

end Pc

namespace Workers

variable {ι Ptr : Type} [DecidableEq ι] [DecidableEq Ptr] {s s' : Workers ι Ptr}

/-- Every worker uses a node in the table. -/
def Safe (s : Workers ι Ptr) : Prop :=
  ∀ i, ∀ node ∈ (s.pc i).uses, node ∈ s.table

/-- A worker that deletes a node does not make it the leader afterwards, and no other worker has
yet to answer it. -/
def Careful (s : Workers ι Ptr) (i : ι) : Prop :=
  ∀ target ∈ (s.pc i).deletes,
    (s.pc i).promotes ≠ some target ∧ ∀ j, (s.pc j).answers ≠ some target

instance [Fintype ι] : Decidable s.Safe :=
  inferInstanceAs (Decidable (∀ i, ∀ node ∈ (s.pc i).uses, node ∈ s.table))

instance [Fintype ι] (i : ι) : Decidable (s.Careful i) :=
  inferInstanceAs (Decidable (∀ target ∈ (s.pc i).deletes,
    (s.pc i).promotes ≠ some target ∧ ∀ j, (s.pc j).answers ≠ some target))

section Places

omit [DecidableEq ι] [DecidableEq Ptr] in
/-- Giving the lock of a node back leaves the lock of the table as it is, or takes less of
it. -/
theorem grants_of_drops {i : ι} {pc : Pc Ptr} {job : Job Ptr} (drops : (s.pc i).Drops job pc) :
    Grants (fun i => (s.pc i).mode) i pc.mode := by
  generalize place : s.pc i = current at drops
  cases drops with
  | discarded => trivial
  | failed => trivial
  | entered => exact grants_of_mode place rfl

/-- What the places of the workers keep in every run: the lock excludes, and a worker that removes
a node was asked to. -/
structure Placed (s : Workers ι Ptr) : Prop where
  excludes : Excludes fun i => (s.pc i).mode
  removes : ∀ i, (s.pc i).Removes

omit [DecidableEq Ptr] in
/-- A worker that goes where the lock lets it go. -/
theorem Placed.goto {i : ι} {pc : Pc Ptr} (placed : s.Placed)
    (places : s'.pc = Function.update s.pc i pc)
    (grants : Grants (fun i => (s.pc i).mode) i pc.mode) (removes : pc.Removes) : s'.Placed := by
  constructor
  · have modes : (fun j => (s'.pc j).mode) =
        Function.update (fun j => (s.pc j).mode) i pc.mode := by
      rw [places]
      exact Function.comp_update Pc.mode s.pc i pc
    rw [modes]
    exact placed.excludes.update grants
  · intro j
    rw [places]
    by_cases same : j = i
    · subst same
      rwa [Function.update_self]
    · rw [Function.update_of_ne same]
      exact placed.removes j

/-- Every step keeps the exclusion and the reason for a removal. Only the steps that take
the lock of the table need an argument: they are granted it. -/
theorem StepResult.placed {worker : Option ι} (result : StepResult s worker s')
    (placed : s.Placed) : s'.Placed := by
  cases result with
  | ignored => exact placed
  | queued free => exact ⟨placed.excludes, placed.removes⟩
  | counted refers listed => exact ⟨placed.excludes, placed.removes⟩
  | woken waiting => exact placed.goto rfl trivial trivial
  | extracted extracting fifo => exact placed.goto rfl trivial trivial
  | moved moves grants => exact placed.goto rfl grants moves.removes
  | dropped drops free => exact placed.goto rfl (grants_of_drops drops) drops.removes
  | decremented drops refers listed => exact placed.goto rfl (grants_of_drops drops) drops.removes
  | added handling free =>
      exact placed.goto rfl (grants_of_mode handling rfl) trivial
  | marked handling listed removes =>
      exact placed.goto rfl (grants_of_mode handling rfl) removes
  | @deleted i job target removing unlocked =>
      exact placed.goto rfl (grants_of_mode removing (Pc.afterRemoval_mode job).symm)
        (Pc.afterRemoval_removes job)

end Places

section Use

omit [DecidableEq Ptr] in
/-- A worker that goes on, with no more to use than before, and nothing is deleted. -/
theorem Safe.goto {i : ι} {pc : Pc Ptr} (safe : s.Safe)
    (places : s'.pc = Function.update s.pc i pc) (kept : s.table ⊆ s'.table)
    (uses : ∀ node ∈ pc.uses, node ∈ s.table) : s'.Safe := by
  intro j node used
  rw [places] at used
  by_cases same : j = i
  · subst same
    rw [Function.update_self] at used
    exact kept (uses node used)
  · rw [Function.update_of_ne same] at used
    exact kept (safe j node used)

variable [Fintype ι]

omit [DecidableEq ι] in
/-- A node that a job refers to is in the table. -/
theorem Accounted.listed {node : Ptr} (accounted : s.Accounted node) (jobs : 0 < s.jobsOf node) :
    node ∈ s.table := by
  by_contra absent
  unfold Accounted at accounted
  rw [if_neg absent] at accounted
  exact jobs.ne' accounted

omit [DecidableEq ι] in
/-- A queued job counts for its node. -/
theorem jobsOf_pos_of_mem {job : Job Ptr} {node : Ptr} (queued : job ∈ s.fifo)
    (refers : job.node = some node) : 0 < s.jobsOf node :=
  Nat.add_pos_left (List.countP_pos_iff.mpr ⟨job, queued, decide_eq_true refers⟩) _

/-- A worker that has not given the lock of a node back counts for it. -/
theorem jobsOf_pos_of_counted {i : ι} {node : Ptr} (counted : (s.pc i).counted = some node) :
    0 < s.jobsOf node :=
  Nat.add_pos_right _ (holders_pos (fun i => (s.pc i).counted) counted)

omit [Fintype ι] in
/-- A step deletes nothing, or it is the end of `RemoveNode1`. -/
theorem StepResult.keeps_or_deletes {i : ι} (result : StepResult s (some i) s') :
    (s.pc i).deletes = none ∨ ∃ job target, s.pc i = .removing job target ∧
      (s.cell target).lockCount = 0 ∧
        s' = { s with table := s.table.filter fun node => decide (node ≠ target) }.goto i
          (.afterRemoval job) := by
  cases result with
  | woken waiting => exact Or.inl (congrArg Pc.deletes waiting)
  | extracted extracting fifo => exact Or.inl (congrArg Pc.deletes extracting)
  | moved moves grants => exact Or.inl moves.deletes_eq
  | dropped drops free => exact Or.inl drops.deletes_eq
  | decremented drops refers listed => exact Or.inl drops.deletes_eq
  | added handling free => exact Or.inl (congrArg Pc.deletes handling)
  | marked handling listed removes => exact Or.inl (congrArg Pc.deletes handling)
  | deleted removing unlocked => exact Or.inr ⟨_, _, removing, unlocked, rfl⟩

/-- A step that deletes nothing keeps the nodes that the workers use: a worker only comes to
use a node with a job of it, and that has its lock. -/
theorem StepResult.safe {worker : Option ι} (result : StepResult s worker s')
    (accounted : ∀ node, s.Accounted node) (safe : s.Safe)
    (keeps : ∀ i, worker = some i → (s.pc i).deletes = none) : s'.Safe := by
  cases result with
  | ignored => exact safe
  | queued free => exact safe
  | counted refers listed => exact safe
  | woken waiting => exact safe.goto rfl (List.Subset.refl _) fun _ used => nomatch used
  | extracted extracting fifo =>
      refine safe.goto rfl (List.Subset.refl _) fun node used => (accounted node).listed ?_
      exact jobsOf_pos_of_mem (fifo ▸ List.mem_cons_self) used
  | moved moves grants =>
      exact safe.goto rfl (List.Subset.refl _) fun node used => safe _ node (moves.uses_of used)
  | dropped drops free =>
      exact safe.goto rfl (List.Subset.refl _) fun node used => safe _ node (drops.uses_of used)
  | decremented drops refers listed =>
      exact safe.goto rfl (List.Subset.refl _) fun node used => safe _ node (drops.uses_of used)
  | @added i job key fresh handling free =>
      refine safe.goto rfl (List.subset_append_left _ _) fun node used => safe i node ?_
      exact handling ▸ Job.node_of_answers used
  | @marked i job target leaderNode handling listed removes =>
      refine safe.goto rfl (List.Subset.refl _) fun node used => safe i node ?_
      exact handling ▸ Job.node_of_promotes used
  | deleted removing unlocked => cases removing ▸ keeps _ rfl

omit [DecidableEq ι] in
/-- A node without locks is in no job. -/
theorem Accounted.unused {node : Ptr} (accounted : s.Accounted node) (listed : node ∈ s.table)
    (unlocked : (s.cell node).lockCount = 0) : s.jobsOf node = 0 := by
  unfold Accounted at accounted
  rw [if_pos listed, unlocked] at accounted
  exact (Int.ofNat.inj accounted).symm

/-- Deleting a node keeps the nodes that the workers use exactly if the step is careful. The
lock count covers jobs, but not the answer that a worker sends after it has given the lock
back. -/
theorem safe_deleted_iff {i : ι} {job : Job Ptr} {target : Ptr}
    (accounted : ∀ node, s.Accounted node) (placed : s.Placed) (safe : s.Safe)
    (removing : s.pc i = .removing job target) (unlocked : (s.cell target).lockCount = 0) :
    ({ s with table := s.table.filter fun node => decide (node ≠ target) }.goto i
      (.afterRemoval job)).Safe ↔ s.Careful i := by
  have removes := placed.removes i
  have uses := safe i
  rw [removing] at removes uses
  constructor
  · -- the node is gone, so nobody may use it any more
    intro safe' other deletes
    rw [removing] at deletes
    obtain rfl : target = other := Option.some.inj deletes
    have gone : ∀ j, (Function.update s.pc i (.afterRemoval job) j).uses ≠ some target :=
      fun j used => by simpa using (List.mem_filter.mp (safe' j target used)).2
    constructor
    · intro promotes
      refine gone i ?_
      rw [Function.update_self, Pc.uses_afterRemoval removes]
      rwa [removing] at promotes
    · intro j answers
      have other : j ≠ i := by
        rintro rfl
        rw [removing] at answers
        cases answers
      refine gone j ?_
      rw [Function.update_of_ne other]
      exact Pc.uses_of_answers answers
  · intro careful j node used
    obtain ⟨promotes, answers⟩ := careful target (congrArg Pc.deletes removing)
    rw [removing] at promotes
    change (Function.update s.pc i (.afterRemoval job) j).uses = some node at used
    suffices node ∈ s.table ∧ node ≠ target from
      List.mem_filter.mpr ⟨this.1, decide_eq_true this.2⟩
    by_cases same : j = i
    · -- the worker itself uses the node that it makes the leader
      subst same
      rw [Function.update_self, Pc.uses_afterRemoval removes] at used
      exact ⟨uses node used, fun deleted => promotes (deleted ▸ used)⟩
    · -- the lock leaves the others only places that the count or the condition covers
      rw [Function.update_of_ne same] at used
      have listed := safe j node used
      refine ⟨listed, ?_⟩
      rintro rfl
      have free := placed.excludes i j (Ne.symm same) (congrArg Pc.mode removing)
      rcases Pc.counted_or_answers free used with counted | answering
      · exact (jobsOf_pos_of_counted counted).ne' ((accounted node).unused listed unlocked)
      · exact answers j answering

/-- A step keeps the nodes that the workers use exactly if it is careful; the lemmas above
have the two kinds of steps. -/
theorem StepResult.safe_iff {worker : Option ι} (result : StepResult s worker s')
    (accounted : ∀ node, s.Accounted node) (placed : s.Placed) (safe : s.Safe) :
    s'.Safe ↔ ∀ i, worker = some i → s.Careful i := by
  cases worker with
  | none =>
      exact iff_of_true (result.safe accounted safe fun _ runs => nomatch runs)
        fun _ runs => nomatch runs
  | some i =>
      simp only [Option.some.injEq, forall_eq']
      rcases result.keeps_or_deletes with keeps | ⟨job, target, removing, unlocked, rfl⟩
      · refine iff_of_true (result.safe accounted safe ?_) fun target deletes => ?_
        · rintro _ ⟨⟩
          exact keeps
        · cases keeps.symm.trans deletes
      · exact safe_deleted_iff accounted placed safe removing unlocked

omit [DecidableEq ι] [DecidableEq Ptr] [Fintype ι] in
/-- At the start no worker uses a node. -/
theorem start_safe (table : List Ptr) (key : Ptr → NodeIdentifierKey)
    (leaderNode thisNode : Option Ptr) :
    (start table key leaderNode thisNode : Workers ι Ptr).Safe := by
  intro i node used
  cases used

/-- The places of the workers in every state of a run. -/
theorem run_placed {table : List Ptr} {key : Ptr → NodeIdentifierKey}
    {leaderNode thisNode : Option Ptr} {trace : List (Step ι Ptr)}
    (run : (machine ι Ptr).Run (start table key leaderNode thisNode) trace s) : s.Placed :=
  run.invariant (fun _ s => s.Placed) ⟨fun _ _ _ _ => rfl, fun _ => trivial⟩
    fun _ placed stepped => (step_result stepped).placed placed

/-- In every run, every worker uses a node in the table throughout exactly if no step deletes a
node that the worker then makes the leader, or that another worker has yet to answer. -/
theorem used_nodes_listed_iff {table : List Ptr} {key : Ptr → NodeIdentifierKey}
    {leaderNode thisNode : Option Ptr} {trace : List (Step ι Ptr)}
    (run : (machine ι Ptr).Run (start table key leaderNode thisNode) trace s) :
    (∀ t ∈ trace, t.after.Safe) ↔
      ∀ t ∈ trace, ∀ i, workerOf t.event = some i → t.before.Careful i :=
  (run.forall_after_iff (I := Safe)
    (P := fun t => ∀ i, workerOf t.event = some i → t.before.Careful i)
    (start_safe table key leaderNode thisNode) fun run safe stepped =>
      (step_result stepped).safe_iff (run_accounted run) (run_placed run) safe).1

/-- A worker of the leader removes its other node. -/
def removal (choice : Choice ℕ) : List (WorkEvent Bool ℕ) :=
  .addInternalForWorker .removeNode (some 1) :: List.replicate 9 (.run true choice)

/-- A worker of the leader removes the other node, and every worker uses nodes of the table
throughout. -/
theorem used_nodes_listed_removal :
    ((machine Bool ℕ).execute ofLeader (removal ⟨true, .zero, 2⟩)).isSome ∧
      ((machine Bool ℕ).stateOf ofLeader (removal ⟨true, .zero, 2⟩)).table = [0] ∧
      ∀ t ∈ (machine Bool ℕ).traceOf ofLeader (removal ⟨true, .zero, 2⟩), t.after.Safe := by
  have defined : ((machine Bool ℕ).execute ofLeader (removal ⟨true, .zero, 2⟩)).isSome := by decide
  have run := run_traceOf (machine Bool ℕ) ofLeader (removal ⟨true, .zero, 2⟩) defined
  exact ⟨defined, by decide, (used_nodes_listed_iff run).mpr (by decide)⟩

/-- Two workers of a follower at address 0; the leader is at address 2. -/
def ofFollower : Workers Bool ℕ :=
  start [0, 1, 2] (fun node => .ofPort (.ofNat node)) (some 2) (some 0)

/-- The node at address 1 tells of a new node. After the locked part of that request the leader
has the node removed, and the answer is sent to it then. -/
def lateAnswer (choice : Choice ℕ) : List (WorkEvent Bool ℕ) :=
  .receiveFromSocketAndInform 1 (some (.newNode (.ofPort 3))) ::
    .receiveFromSocketAndInform 2 (some (.removeNode (.ofPort 1))) ::
      (List.replicate 7 (.run false choice) ++ List.replicate 8 (.run true choice) ++
        [.run false choice])

/-- A worker answers a node that another worker has deleted. -/
theorem answered_node_deleted :
    ∃ trace s, (machine Bool ℕ).Run ofFollower trace s ∧
      s.pc false = .after (.receive 1 (some (.newNode (.ofPort 3)))) (some 3) ∧
      1 ∉ s.table ∧ ¬ s.Safe ∧ ∀ choice, s.advance false choice = none :=
  ⟨_, _, run_traceOf (machine Bool ℕ) ofFollower (lateAnswer ⟨true, .zero, 3⟩) (by decide),
    by decide, by decide, by decide, fun _ => rfl⟩

end Use

end Workers

end Tcp

end CppRaft
