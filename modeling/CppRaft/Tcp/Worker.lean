import CppRaft.Machine.Threads
import CppRaft.Machine.Trace
import CppRaft.Tcp.Server

/-!
# The worker threads

Producers put jobs into `m_fifoWorker`; any number of workers take them out and run the
handlers, with the parts before, under and after the exclusive lock of
`m_shrdMutexForNodes2`. `RemoveNode1` marks a node, so that it gets no more jobs, waits
until its lock count is zero and deletes it. Every acquisition and release of the lock
and every part of a handler is a step, and `StepResult` lists what a step can do. The
table is a list of addresses here; `ShowsNodes` relates it to the memory of `m_Nodes`.
-/

namespace CppRaft

namespace Tcp

open Machine

/-- The fields of `RaftNode2` that the workers use. -/
structure NodeCell where
  key : NodeIdentifierKey
  lockCount : Int := 0
  marked : Bool := false

/-- `SWorkerData`. A receive job without one of the requests that
`handleReceiveFromNodeLocked` treats has `none`. -/
inductive Job (Ptr : Type) where
  | connection
  | receive (node : Ptr) (request : Option LockedRequest)
  | internal (request : InternalRequest) (node : Option Ptr)
  deriving DecidableEq

/-- `pNode` of a job. -/
def Job.node {Ptr : Type} : Job Ptr → Option Ptr
  | connection => none
  | receive node _ => some node
  | internal _ node => node

/-- Where a worker is. The names say what it does next: wait for `m_semaWorker`, take a job, test
the mark of its node, drop a marked job, take the shared lock for the part before the lock, run
that part, take the exclusive lock, execute `decrementLock2`, run the locked part, delete a node it
has marked, point `m_pLeaderNode` to the node of the job, release the lock after a locked part that
returned false or true, take the shared lock again, run the part after the lock, and release.
`added` is the node that the locked part made. -/
inductive Pc (Ptr : Type) where
  | waiting
  | extracting
  | extracted (job : Job Ptr)
  | marked (job : Job Ptr)
  | beforeShared (job : Job Ptr)
  | before (job : Job Ptr)
  | beforeLock (job : Job Ptr)
  | locked (job : Job Ptr)
  | handling (job : Job Ptr)
  | removing (job : Job Ptr) (target : Ptr)
  | promoting (job : Job Ptr)
  | leaving
  | handled (job : Job Ptr) (added : Option Ptr)
  | afterShared (job : Job Ptr) (added : Option Ptr)
  | after (job : Job Ptr) (added : Option Ptr)
  | finishing
  deriving DecidableEq

namespace Pc

variable {Ptr : Type}

/-- What the worker has of `m_shrdMutexForNodes2`. -/
def mode : Pc Ptr → LockMode
  | before _ => .shared
  | locked _ => .exclusive
  | handling _ => .exclusive
  | removing _ _ => .exclusive
  | promoting _ => .exclusive
  | leaving => .exclusive
  | handled _ _ => .exclusive
  | after _ _ => .shared
  | finishing => .shared
  | _ => .free

/-- Where the handler of a job starts. -/
def ofJob : Job Ptr → Pc Ptr
  | .connection => beforeShared .connection
  | .receive node request => beforeLock (.receive node request)
  | .internal request node => beforeShared (.internal request node)

/-- Where the locked part goes on after `RemoveNode1`. -/
def afterRemoval : Job Ptr → Pc Ptr
  | .receive node (some .oldLeaderDied) => promoting (.receive node (some .oldLeaderDied))
  | job => handled job none

/-- A worker that has removed a node still holds the lock. -/
theorem afterRemoval_mode (job : Job Ptr) : (afterRemoval job).mode = .exclusive := by
  unfold afterRemoval
  split <;> rfl

/-- The steps that only take the worker to another place. -/
inductive Moves : Pc Ptr → Pc Ptr → Prop where
  | empty : Moves extracting waiting
  | unmarked (job : Job Ptr) : Moves (extracted job) (ofJob job)
  | found (job : Job Ptr) : Moves (extracted job) (marked job)
  | unread : Moves (beforeShared .connection) extracting
  | sharedBefore (job : Job Ptr) : Moves (beforeShared job) (before job)
  | passed (job : Job Ptr) : Moves (before job) (beforeLock job)
  | acquired (job : Job Ptr) : Moves (beforeLock job) (locked job)
  | refused (job : Job Ptr) : Moves (handling job) leaving
  | exists : Moves (handling .connection) (handled .connection none)
  | absent (job : Job Ptr) : Moves (handling job) (afterRemoval job)
  | promoted (job : Job Ptr) : Moves (promoting job) (handled job none)
  | left : Moves leaving extracting
  | released (job : Job Ptr) (added : Option Ptr) :
      Moves (handled job added) (afterShared job added)
  | sharedAfter (job : Job Ptr) (added : Option Ptr) :
      Moves (afterShared job added) (after job added)
  | answered (job : Job Ptr) (added : Option Ptr) : Moves (after job added) finishing
  | finished : Moves finishing extracting

/-- The steps that execute `decrementLock2`. -/
inductive Drops : Pc Ptr → Job Ptr → Pc Ptr → Prop where
  | discarded (job : Job Ptr) : Drops (marked job) job waiting
  | failed (job : Job Ptr) : Drops (before job) job extracting
  | entered (job : Job Ptr) : Drops (locked job) job (handling job)

end Pc

/-- The nodes of the table with their fields, the two node pointers, the queue with its semaphore,
and the workers. -/
structure Workers (ι Ptr : Type) where
  table : List Ptr
  cell : Ptr → NodeCell
  leaderNode : Option Ptr
  thisNode : Option Ptr
  fifo : List (Job Ptr)
  sema : ℕ
  pc : ι → Pc Ptr

/-- What a step of a worker depends on besides the state: the outcome of a test (of the part
before the lock, of the role of the server), the key of a connecting node, and the address that
`new` returns. -/
structure Choice (Ptr : Type) where
  ok : Bool
  key : NodeIdentifierKey
  fresh : Ptr

/-- A producer makes a job, or a worker takes a step. A producer that could not read a request,
or that refuses it for the role of the server, makes no job and has no event. -/
inductive WorkEvent (ι Ptr : Type) where
  | receiveFromSocketAndInform (node : Ptr) (request : Option LockedRequest)
  | addInternalForWorker (request : InternalRequest) (node : Option Ptr)
  | addConnectForWorker
  | run (worker : ι) (choice : Choice Ptr)

namespace Workers

variable {ι Ptr : Type} [DecidableEq ι] [DecidableEq Ptr]

/-- The server when its threads start. -/
def start (table : List Ptr) (key : Ptr → NodeIdentifierKey) (leaderNode thisNode : Option Ptr) :
    Workers ι Ptr where
  table := table
  cell := fun node => { key := key node }
  leaderNode := leaderNode
  thisNode := thisNode
  fifo := []
  sema := 0
  pc := fun _ => .waiting

/-- A worker goes on. -/
def goto (worker : ι) (pc : Pc Ptr) (s : Workers ι Ptr) : Workers ι Ptr :=
  { s with pc := Function.update s.pc worker pc }

/-- Change `m_locksCount` of a node. -/
def changeLock (node : Ptr) (change : Int) (s : Workers ι Ptr) : Workers ι Ptr :=
  { s with
    cell := Function.update s.cell node
      { s.cell node with lockCount := (s.cell node).lockCount + change } }

/-- `markWillBeDeleted`. -/
def markWillBeDeleted (node : Ptr) (s : Workers ι Ptr) : Workers ι Ptr :=
  { s with cell := Function.update s.cell node { s.cell node with marked := true } }

/-- `FindEntry` of the node table. -/
def findEntry (key : NodeIdentifierKey) (s : Workers ι Ptr) : Option Ptr :=
  s.table.find? fun node => decide ((s.cell node).key = key)

/-- Put a job into the queue and wake a worker. -/
def addElement (job : Job Ptr) (s : Workers ι Ptr) : Workers ι Ptr :=
  { s with fifo := s.fifo ++ [job], sema := s.sema + 1 }

/-- `AddJobForWorkerPrivate`: a node that is marked gets no more jobs. -/
def addJobForWorkerPrivate (job : Job Ptr) (s : Workers ι Ptr) : Option (Workers ι Ptr) :=
  match job.node with
  | none => some (s.addElement job)
  | some node =>
      if node ∈ s.table then
        some (if (s.cell node).marked then s else (s.changeLock node 1).addElement job)
      else none

/-- `handleReceiveFromNodeBeforeLockRcvContext`, the tests of the node table and the leader. -/
def handleReceiveFromNodeBeforeLockRcvContext (node : Ptr) (s : Workers ι Ptr) :
    Option LockedRequest → Bool
  | some (.newNode key) => (s.findEntry key).isNone
  | some (.removeNode _) => decide (s.leaderNode = some node)
  | _ => true

/-- `ReceiveFromSocketAndInform` of a request that was read. -/
def receiveFromSocketAndInform (node : Ptr) (request : Option LockedRequest) (s : Workers ι Ptr) :
    Option (Workers ι Ptr) :=
  if node ∈ s.table then
    some (if (s.cell node).marked then s
      else if s.handleReceiveFromNodeBeforeLockRcvContext node request then
        (s.changeLock node 1).addElement (.receive node request)
      else s)
  else none

/-- `decrementLock2` of the node of a job, if it has one. -/
def decrementLock2 (job : Job Ptr) (s : Workers ι Ptr) : Option (Workers ι Ptr) :=
  match job.node with
  | none => some s
  | some node => if node ∈ s.table then some (s.changeLock node (-1)) else none

/-- `AddNode` of a key that is not in the table, at a free address. -/
def addNode (worker : ι) (job : Job Ptr) (key : NodeIdentifierKey) (fresh : Ptr)
    (s : Workers ι Ptr) : Option (Workers ι Ptr) :=
  if fresh ∈ s.table then none
  else
    some ({ s with
      table := s.table ++ [fresh]
      cell := Function.update s.cell fresh { key := key } }.goto worker (.handled job (some fresh)))

/-- `RemoveNode1`, until the node it has found is marked. -/
def removeNode1 (worker : ι) (job : Job Ptr) (key : NodeIdentifierKey) (s : Workers ι Ptr) :
    Workers ι Ptr :=
  match s.findEntry key with
  | none => s.goto worker (.afterRemoval job)
  | some target => (s.markWillBeDeleted target).goto worker (.removing job target)

/-- `RemoveNode2`. -/
def removeNode2 (worker : ι) (job : Job Ptr) (node : Ptr) (s : Workers ι Ptr) :
    Option (Workers ι Ptr) :=
  if node ∈ s.table then some (s.removeNode1 worker job (s.cell node).key) else none

/-- The locked part of a handler. -/
def handleLocked (worker : ι) (choice : Choice Ptr) (s : Workers ι Ptr) :
    Job Ptr → Option (Workers ι Ptr)
  | .connection =>
      match s.findEntry choice.key with
      | some _ => some (s.goto worker (.handled .connection none))
      | none => s.addNode worker .connection choice.key choice.fresh
  | .receive _ none => some (s.goto worker .leaving)
  | .receive node (some (.newNode key)) =>
      match s.findEntry key with
      | some _ => some (s.goto worker .leaving)
      | none => s.addNode worker (.receive node (some (.newNode key))) key choice.fresh
  | .receive node (some (.removeNode key)) =>
      if node ∈ s.table then
        some (s.removeNode1 worker (.receive node (some (.removeNode key))) key)
      else none
  | .receive node (some .oldLeaderDied) =>
      match s.leaderNode with
      | none => some (s.goto worker .leaving)
      | some leader =>
          if node ∈ s.table then
            s.removeNode2 worker (.receive node (some .oldLeaderDied)) leader
          else none
  | .internal .removeNode node =>
      if choice.ok then
        match node with
        | none => none
        | some target => s.removeNode2 worker (.internal .removeNode node) target
      else some (s.goto worker .leaving)
  | .internal .becomeLeader node =>
      if choice.ok then
        match s.leaderNode, s.thisNode with
        | some leader, some own =>
            if own ∈ s.table then
              { s with leaderNode := some own }.removeNode2 worker
                (.internal .becomeLeader node) leader
            else none
        | _, _ => none
      else some (s.goto worker .leaving)

/-- The node that `RemoveNode1` finds when the locked part of a job is run. -/
def removalTarget (s : Workers ι Ptr) (choice : Choice Ptr) : Job Ptr → Option Ptr
  | .receive _ (some (.removeNode key)) => s.findEntry key
  | .receive _ (some .oldLeaderDied) =>
      s.leaderNode.bind fun leader => s.findEntry (s.cell leader).key
  | .internal .removeNode node =>
      if choice.ok then node.bind fun target => s.findEntry (s.cell target).key else none
  | .internal .becomeLeader _ =>
      if choice.ok then s.leaderNode.bind fun leader => s.findEntry (s.cell leader).key else none
  | _ => none

/-- The part after the lock: a `newNode` request answers its node, and a new connection goes on
with the node it has made. -/
def handleAfterLock (worker : ι) (s : Workers ι Ptr) :
    Job Ptr → Option Ptr → Option (Workers ι Ptr)
  | .receive node (some (.newNode _)), _ =>
      if node ∈ s.table then some (s.goto worker .finishing) else none
  | .connection, some added =>
      if added ∈ s.table then some (s.goto worker .finishing) else none
  | _, _ => some (s.goto worker .finishing)

section Steps

variable [Fintype ι]

/-- One step of `ThreadFunctionWorker` and of the handlers it calls. Following the pointer to a
node that is not in the table has no defined result. -/
def advance (worker : ι) (choice : Choice Ptr) (s : Workers ι Ptr) : Option (Workers ι Ptr) :=
  match s.pc worker with
  | .waiting =>
      match s.sema with
      | 0 => none
      | posts + 1 => some ({ s with sema := posts }.goto worker .extracting)
  | .extracting =>
      match s.fifo with
      | [] => some (s.goto worker .waiting)
      | job :: rest => some ({ s with fifo := rest }.goto worker (.extracted job))
  | .extracted job =>
      match job.node with
      | none => some (s.goto worker (.ofJob job))
      | some node =>
          if node ∈ s.table then
            some (s.goto worker (if (s.cell node).marked then .marked job else .ofJob job))
          else none
  | .marked job => (s.decrementLock2 job).map (goto worker .waiting)
  | .beforeShared job =>
      -- a connection whose request could not be read is closed without a lock
      if job = .connection ∧ ¬ choice.ok then some (s.goto worker .extracting)
      else if MayShare fun i => (s.pc i).mode then some (s.goto worker (.before job)) else none
  | .before job =>
      if choice.ok then some (s.goto worker (.beforeLock job))
      else (s.decrementLock2 job).map (goto worker .extracting)
  | .beforeLock job =>
      if MayLock fun i => (s.pc i).mode then some (s.goto worker (.locked job)) else none
  | .locked job => (s.decrementLock2 job).map (goto worker (.handling job))
  | .handling job => s.handleLocked worker choice job
  | .removing job target =>
      -- the loop that sleeps while the node is locked: no step until the count is zero
      if (s.cell target).lockCount = 0 then
        some ({ s with table := s.table.filter fun node => decide (node ≠ target) }.goto worker
          (.afterRemoval job))
      else none
  | .promoting job =>
      match job.node with
      | none => none
      | some node =>
          if node ∈ s.table then
            some ({ s with leaderNode := some node }.goto worker (.handled job none))
          else none
  | .leaving => some (s.goto worker .extracting)
  | .handled job added => some (s.goto worker (.afterShared job added))
  | .afterShared job added =>
      if MayShare fun i => (s.pc i).mode then some (s.goto worker (.after job added)) else none
  | .after job added => s.handleAfterLock worker job added
  | .finishing => some (s.goto worker .extracting)

/-- The step an event takes. -/
def next (s : Workers ι Ptr) : WorkEvent ι Ptr → Option (Workers ι Ptr)
  | .receiveFromSocketAndInform node request => s.receiveFromSocketAndInform node request
  | .addInternalForWorker request node => s.addJobForWorkerPrivate (.internal request node)
  | .addConnectForWorker => s.addJobForWorkerPrivate .connection
  | .run worker choice => s.advance worker choice

variable (ι Ptr) in
/-- The workers as a machine. -/
def machine : Machine (Workers ι Ptr) (WorkEvent ι Ptr) Empty where
  step := fun s event => (s.next event).map Effect.done

/-- One step of a run. -/
abbrev Step (ι Ptr : Type) : Type :=
  Transition (Workers ι Ptr) (WorkEvent ι Ptr) Empty

end Steps

/-- The worker that takes the step of an event. -/
def workerOf : WorkEvent ι Ptr → Option ι
  | .run worker _ => some worker
  | _ => none

/-- The defined steps, by the worker that takes them. -/
inductive StepResult (s : Workers ι Ptr) : Option ι → Workers ι Ptr → Prop where
  | ignored : StepResult s none s
  | queued {job : Job Ptr} (free : job.node = none) : StepResult s none (s.addElement job)
  | counted {job : Job Ptr} {node : Ptr} (refers : job.node = some node)
      (listed : node ∈ s.table) : StepResult s none ((s.changeLock node 1).addElement job)
  | woken {i : ι} {posts : ℕ} (waiting : s.pc i = .waiting) :
      StepResult s (some i) ({ s with sema := posts }.goto i .extracting)
  | extracted {i : ι} {job : Job Ptr} {rest : List (Job Ptr)} (extracting : s.pc i = .extracting)
      (fifo : s.fifo = job :: rest) :
      StepResult s (some i) ({ s with fifo := rest }.goto i (.extracted job))
  | moved {i : ι} {pc : Pc Ptr} {leaderNode : Option Ptr} (moves : (s.pc i).Moves pc)
      (grants : Grants (fun i => (s.pc i).mode) i pc.mode) :
      StepResult s (some i) ({ s with leaderNode := leaderNode }.goto i pc)
  | dropped {i : ι} {job : Job Ptr} {pc : Pc Ptr} (drops : (s.pc i).Drops job pc)
      (free : job.node = none) : StepResult s (some i) (s.goto i pc)
  | decremented {i : ι} {job : Job Ptr} {node : Ptr} {pc : Pc Ptr}
      (drops : (s.pc i).Drops job pc) (refers : job.node = some node) (listed : node ∈ s.table) :
      StepResult s (some i) ((s.changeLock node (-1)).goto i pc)
  | added {i : ι} {job : Job Ptr} {key : NodeIdentifierKey} {fresh : Ptr}
      (handling : s.pc i = .handling job) (free : fresh ∉ s.table) :
      StepResult s (some i)
        ({ s with
          table := s.table ++ [fresh]
          cell := Function.update s.cell fresh { key := key } }.goto i (.handled job (some fresh)))
  | marked {i : ι} {job : Job Ptr} {target : Ptr} {leaderNode : Option Ptr}
      (handling : s.pc i = .handling job) (listed : target ∈ s.table)
      (removes : ∀ node key, job ≠ .receive node (some (.newNode key))) :
      StepResult s (some i)
        (({ s with leaderNode := leaderNode }.markWillBeDeleted target).goto i
          (.removing job target))
  | deleted {i : ι} {job : Job Ptr} {target : Ptr} (removing : s.pc i = .removing job target)
      (unlocked : (s.cell target).lockCount = 0) :
      StepResult s (some i)
        ({ s with table := s.table.filter fun node => decide (node ≠ target) }.goto i
          (.afterRemoval job))

section Inversion

variable {s s' : Workers ι Ptr}

/-- Queueing a job is a step that no worker takes. -/
theorem addJobForWorkerPrivate_result (job : Job Ptr)
    (added : s.addJobForWorkerPrivate job = some s') : StepResult s none s' := by
  unfold addJobForWorkerPrivate at added
  split at added
  · cases added
    exact .queued ‹_›
  · obtain ⟨listed, ⟨⟩⟩ := Option.ite_none_right_eq_some.mp added
    split
    · exact .ignored
    · exact .counted ‹_› listed

/-- The receiving thread locks the node and queues the job; it is none of the workers. -/
theorem receiveFromSocketAndInform_result {node : Ptr} {request : Option LockedRequest}
    (received : s.receiveFromSocketAndInform node request = some s') : StepResult s none s' := by
  obtain ⟨listed, ⟨⟩⟩ := Option.ite_none_right_eq_some.mp received
  split
  · exact .ignored
  · split
    · exact .counted rfl listed
    · exact .ignored

/-- Giving the lock of a node back is a step of the worker whose job it was. -/
theorem decrementLock2_result {i : ι} {job : Job Ptr} {pc : Pc Ptr}
    (drops : (s.pc i).Drops job pc)
    (dropped : (s.decrementLock2 job).map (goto i pc) = some s') : StepResult s (some i) s' := by
  obtain ⟨middle, decremented, rfl⟩ := Option.map_eq_some_iff.mp dropped
  unfold decrementLock2 at decremented
  split at decremented
  · cases decremented
    exact .dropped drops ‹_›
  · obtain ⟨listed, ⟨⟩⟩ := Option.ite_none_right_eq_some.mp decremented
    exact .decremented drops ‹_› listed

/-- A step that only takes the worker to another place. -/
theorem moved_result {i : ι} {pc pc' : Pc Ptr} {leaderNode : Option Ptr} (place : s.pc i = pc)
    (moves : pc.Moves pc') (allowed : Grants (fun i => (s.pc i).mode) i pc'.mode) :
    StepResult s (some i) ({ s with leaderNode := leaderNode }.goto i pc') :=
  .moved (place ▸ moves) allowed

omit [DecidableEq ι] [DecidableEq Ptr] in
/-- A worker may go where it needs what it has of the lock. -/
theorem grants_of_mode {i : ι} {pc pc' : Pc Ptr} (place : s.pc i = pc)
    (same : pc.mode = pc'.mode) : Grants (fun i => (s.pc i).mode) i pc'.mode :=
  .of_eq ((congrArg Pc.mode place).trans same)

/-- Such a step of a worker that keeps what it has of the lock. -/
theorem kept_result {i : ι} {pc pc' : Pc Ptr} {leaderNode : Option Ptr} (place : s.pc i = pc)
    (moves : pc.Moves pc') (same : pc.mode = pc'.mode) :
    StepResult s (some i) ({ s with leaderNode := leaderNode }.goto i pc') :=
  moved_result place moves (grants_of_mode place same)

/-- What the locked part of a job does, with the node that it marks. -/
inductive LockedResult (s : Workers ι Ptr) (i : ι) (job : Job Ptr) :
    Option Ptr → Workers ι Ptr → Prop where
  | refused : LockedResult s i job none (s.goto i .leaving)
  | known (connects : job = .connection) : LockedResult s i job none (s.goto i (.handled job none))
  | added {key : NodeIdentifierKey} {fresh : Ptr} (free : fresh ∉ s.table) :
      LockedResult s i job none
        ({ s with
          table := s.table ++ [fresh]
          cell := Function.update s.cell fresh { key := key } }.goto i (.handled job (some fresh)))
  | absent (leaderNode : Option Ptr) :
      LockedResult s i job none ({ s with leaderNode := leaderNode }.goto i (.afterRemoval job))
  | marked {target : Ptr} (leaderNode : Option Ptr) (listed : target ∈ s.table)
      (removes : ∀ node key, job ≠ .receive node (some (.newNode key))) :
      LockedResult s i job (some target)
        (({ s with leaderNode := leaderNode }.markWillBeDeleted target).goto i
          (.removing job target))

section Locked

variable {i : ι} {job : Job Ptr}

/-- Adding a node is one of the locked results: the new node is in the table, with no lock
and no mark. -/
theorem addNode_locked {key : NodeIdentifierKey} {fresh : Ptr}
    (added : s.addNode i job key fresh = some s') : LockedResult s i job none s' := by
  obtain ⟨free, ⟨⟩⟩ := Option.ite_none_left_eq_some.mp added
  exact .added free

/-- `RemoveNode1` marks the node that it finds, and the worker waits for its locks. -/
theorem removeNode1_locked (key : NodeIdentifierKey) (leaderNode : Option Ptr)
    (removes : ∀ node key, job ≠ .receive node (some (.newNode key))) :
    LockedResult s i job (s.findEntry key)
      ({ s with leaderNode := leaderNode }.removeNode1 i job key) := by
  have same : { s with leaderNode := leaderNode }.findEntry key = s.findEntry key := rfl
  unfold removeNode1
  rw [same]
  cases found : s.findEntry key with
  | none => exact .absent leaderNode
  | some target => exact .marked leaderNode (List.mem_of_find?_eq_some found) removes

/-- `RemoveNode2` does the same for the node with the key of its argument. -/
theorem removeNode2_locked {node : Ptr} (leaderNode : Option Ptr)
    (removes : ∀ node key, job ≠ .receive node (some (.newNode key)))
    (called : { s with leaderNode := leaderNode }.removeNode2 i job node = some s') :
    LockedResult s i job (s.findEntry (s.cell node).key) s' := by
  obtain ⟨-, ⟨⟩⟩ := Option.ite_none_right_eq_some.mp called
  exact removeNode1_locked _ leaderNode removes

/-- Every locked part is one of the locked results: it adds a node, marks one for removal,
or leaves the table alone. -/
theorem handleLocked_locked {choice : Choice Ptr}
    (called : s.handleLocked i choice job = some s') :
    LockedResult s i job (s.removalTarget choice job) s' := by
  cases job with
  | connection =>
      simp only [handleLocked] at called
      split at called
      · cases called
        exact .known rfl
      · exact addNode_locked called
  | receive node request =>
      cases request with
      | none =>
          cases called
          exact .refused
      | some request =>
          cases request with
          | newNode key =>
              simp only [handleLocked] at called
              split at called
              · cases called
                exact .refused
              · exact addNode_locked called
          | removeNode key =>
              obtain ⟨-, ⟨⟩⟩ := Option.ite_none_right_eq_some.mp called
              exact removeNode1_locked key s.leaderNode fun _ _ other => nomatch other
          | oldLeaderDied =>
              simp only [handleLocked, removalTarget] at called ⊢
              split at called
              · cases called
                rw [‹s.leaderNode = none›]
                exact .refused
              · obtain ⟨-, called⟩ := Option.ite_none_right_eq_some.mp called
                rw [‹s.leaderNode = some _›]
                exact removeNode2_locked s.leaderNode (fun _ _ other => nomatch other) called
  | internal request node =>
      cases request with
      | removeNode =>
          simp only [handleLocked, removalTarget] at called ⊢
          split at called
          · rw [if_pos ‹_›]
            split at called
            · cases called
            · exact removeNode2_locked s.leaderNode (fun _ _ other => nomatch other) called
          · cases called
            rw [if_neg ‹_›]
            exact .refused
      | becomeLeader =>
          simp only [handleLocked, removalTarget] at called ⊢
          split at called
          · rw [if_pos ‹_›]
            split at called
            · obtain ⟨-, called⟩ := Option.ite_none_right_eq_some.mp called
              rw [‹s.leaderNode = some _›]
              exact removeNode2_locked _ (fun _ _ other => nomatch other) called
            · cases called
          · cases called
            rw [if_neg ‹_›]
            exact .refused

/-- The locked part as a step of the worker. -/
theorem LockedResult.result {target : Option Ptr} (locked : LockedResult s i job target s')
    (handling : s.pc i = .handling job) : StepResult s (some i) s' := by
  cases locked with
  | refused => exact kept_result handling (.refused job) rfl
  | known connects =>
      subst connects
      exact kept_result handling .exists rfl
  | added free => exact .added handling free
  | absent leaderNode => exact kept_result handling (.absent job) (Pc.afterRemoval_mode job).symm
  | marked leaderNode listed removes => exact .marked handling listed removes

end Locked

/-- What a worker does after the lock is a step of that worker. -/
theorem handleAfterLock_result {i : ι} {job : Job Ptr} {added : Option Ptr}
    (place : s.pc i = .after job added) (called : s.handleAfterLock i job added = some s') :
    StepResult s (some i) s' := by
  have answers : StepResult s (some i) (s.goto i .finishing) :=
    kept_result place (.answered job added) rfl
  unfold handleAfterLock at called
  split at called
  · obtain ⟨-, ⟨⟩⟩ := Option.ite_none_right_eq_some.mp called
    exact answers
  · obtain ⟨-, ⟨⟩⟩ := Option.ite_none_right_eq_some.mp called
    exact answers
  · cases called
    exact answers

variable [Fintype ι]

/-- Every step of a worker is one of `StepResult`, from which the invariants of the nodes
and locks are derived. -/
theorem advance_result {i : ι} {choice : Choice Ptr} (stepped : s.advance i choice = some s') :
    StepResult s (some i) s' := by
  unfold advance at stepped
  split at stepped
  case h_1 waiting =>
      split at stepped
      · cases stepped
      · cases stepped
        exact .woken waiting
  case h_2 extracting =>
      split at stepped
      · cases stepped
        exact moved_result extracting .empty trivial
      · cases stepped
        exact .extracted extracting ‹_›
  case h_3 job place =>
      have goes : StepResult s (some i) (s.goto i (.ofJob job)) :=
        moved_result place (.unmarked job) (by cases job <;> trivial)
      split at stepped
      · cases stepped
        exact goes
      · obtain ⟨-, ⟨⟩⟩ := Option.ite_none_right_eq_some.mp stepped
        split
        · exact moved_result place (.found job) trivial
        · exact goes
  case h_4 job place => exact decrementLock2_result (place ▸ .discarded job) stepped
  case h_5 job place =>
      split at stepped
      · rename_i unread
        cases stepped
        exact moved_result (place.trans (congrArg _ unread.1)) .unread trivial
      · obtain ⟨may, ⟨⟩⟩ := Option.ite_none_right_eq_some.mp stepped
        exact moved_result place (.sharedBefore job) (Or.inr may)
  case h_6 job place =>
      split at stepped
      · cases stepped
        exact moved_result place (.passed job) trivial
      · exact decrementLock2_result (place ▸ .failed job) stepped
  case h_7 job place =>
      obtain ⟨may, ⟨⟩⟩ := Option.ite_none_right_eq_some.mp stepped
      exact moved_result place (.acquired job) (Or.inr may)
  case h_8 job place => exact decrementLock2_result (place ▸ .entered job) stepped
  case h_9 job place => exact (handleLocked_locked stepped).result place
  case h_10 job target place =>
      obtain ⟨unlocked, ⟨⟩⟩ := Option.ite_none_right_eq_some.mp stepped
      exact .deleted place unlocked
  case h_11 job place =>
      split at stepped
      · cases stepped
      · obtain ⟨-, ⟨⟩⟩ := Option.ite_none_right_eq_some.mp stepped
        exact kept_result place (.promoted job) rfl
  case h_12 place =>
      cases stepped
      exact moved_result place .left trivial
  case h_13 job added place =>
      cases stepped
      exact moved_result place (.released job added) trivial
  case h_14 job added place =>
      obtain ⟨may, ⟨⟩⟩ := Option.ite_none_right_eq_some.mp stepped
      exact moved_result place (.sharedAfter job added) (Or.inr may)
  case h_15 job added place => exact handleAfterLock_result place stepped
  case h_16 place =>
      cases stepped
      exact moved_result place .finished trivial

/-- What a step of a run can be. -/
theorem step_result {event : WorkEvent ι Ptr} {effect : Effect (Workers ι Ptr) Empty}
    (stepped : (machine ι Ptr).step s event = some effect) :
    StepResult s (workerOf event) effect.state := by
  obtain ⟨s', next, rfl⟩ := Option.map_eq_some_iff.mp stepped
  cases event with
  | receiveFromSocketAndInform node request => exact receiveFromSocketAndInform_result next
  | addInternalForWorker request node =>
      exact addJobForWorkerPrivate_result (.internal request node) next
  | addConnectForWorker => exact addJobForWorkerPrivate_result .connection next
  | run worker choice => exact advance_result next

end Inversion

section Shown

variable {ι : Type} [DecidableEq ι] {o : ByteOrder} {t : ListspecialAndHashtbl}
  {s s' : Workers ι NodePtr}

/-- `m_Nodes` holds the nodes of the table under their keys. -/
def ShowsNodes (o : ByteOrder) (t : ListspecialAndHashtbl) (s : Workers ι NodePtr) : Prop :=
  ∃ slots, t.Represents slots ∧ s.table = slots.map Slot.node ∧
    ∀ e ∈ slots, e.key = ((s.cell e.node).key.image o).bytes

omit [DecidableEq ι] in
private theorem slotOf?_image {slots : List Slot}
    (keys : ∀ e ∈ slots, e.key = ((s.cell e.node).key.image o).bytes) (key : NodeIdentifierKey) :
    ListspecialAndHashtbl.slotOf? (key.image o).bytes slots =
      slots.find? fun e => decide ((s.cell e.node).key = key) := by
  have same : slots.filter (fun e => decide (e.key = (key.image o).bytes)) =
      slots.filter fun e => decide ((s.cell e.node).key = key) := by
    refine List.filter_congr fun e member => decide_eq_decide.mpr ?_
    rw [keys e member]
    exact (NodeIdentifierKey.image_injective o).eq_iff
  rw [ListspecialAndHashtbl.slotOf?, ← List.head?_filter, same, List.head?_filter]

omit [DecidableEq ι] in
/-- A lookup in `m_Nodes` is one in the table. -/
theorem ShowsNodes.findEntry (shows : ShowsNodes o t s) (key : NodeIdentifierKey) :
    t.findEntry (key.image o).bytes = some (s.findEntry key) := by
  obtain ⟨slots, rep, table, keys⟩ := shows
  rw [rep.findEntry_eq, slotOf?_image keys, Workers.findEntry, table, List.find?_map]
  rfl

/-- `AddNode` on `m_Nodes` adds the node to the table. -/
theorem ShowsNodes.addNode (shows : ShowsNodes o t s) {worker : ι} {job : Job NodePtr}
    {key : NodeIdentifierKey} {node : NodePtr} {item : ItemPtr} (absent : s.findEntry key = none)
    (freeNode : t.nodes node = none) (freeItem : t.items item = none) (room : t.count < maxCount)
    (added : s.addNode worker job key node = some s') :
    ∃ t', t.addNode (key.image o).bytes node item = some (some node, t') ∧
      ShowsNodes o t' s' := by
  obtain ⟨slots, rep, table, keys⟩ := shows
  obtain ⟨fresh, ⟨⟩⟩ := Option.ite_none_left_eq_some.mp added
  have unknown : ListspecialAndHashtbl.slotOf? (key.image o).bytes slots = none := by
    rw [Workers.findEntry, table, List.find?_map, Option.map_eq_none_iff] at absent
    rw [slotOf?_image keys]
    exact absent
  have short : (key.image o).bytes.length < 2 ^ 32 := by
    rw [(key.image o).sized]
    decide
  obtain ⟨t', entered, rep'⟩ :=
    rep.addNode_absent ⟨(key.image o).bytes, node, item⟩ short unknown freeNode freeItem room
  refine ⟨t', entered, _, rep', ?_, ?_⟩
  · rw [List.map_append, ← table]
    rfl
  · intro e member
    rcases List.mem_append.mp member with old | new
    · have other : e.node ≠ node := by
        rintro rfl
        exact fresh (table ▸ List.mem_map_of_mem old)
      refine (keys e old).trans ?_
      simp only [goto, Function.update_of_ne other]
    · obtain rfl := List.mem_singleton.mp new
      simp only [goto, Function.update_self]

omit [DecidableEq ι] in
/-- The end of `RemoveNode1` on `m_Nodes` takes the node out of the table. -/
theorem ShowsNodes.removeNode2 (shows : ShowsNodes o t s) {target : NodePtr}
    (listed : target ∈ s.table) :
    ∃ t', t.removeNode2 target = some t' ∧
      ShowsNodes o t' { s with table := s.table.filter fun node => decide (node ≠ target) } := by
  obtain ⟨slots, rep, table, keys⟩ := shows
  rw [table] at listed
  obtain ⟨e, member, rfl⟩ := List.mem_map.mp listed
  obtain ⟨before, after, rfl⟩ := List.append_of_mem member
  obtain ⟨t', removed, rep'⟩ := rep.removeNode1_present
  refine ⟨t', (rep.removeNode2_eq member).trans removed, _, rep', ?_, fun e' kept => keys e' ?_⟩
  · have taken := Store.filter_ne_middle Slot.node rep.nodes
    rw [table, List.filter_map]
    exact congrArg (List.map Slot.node) taken
  · exact (List.Sublist.append_left (List.sublist_cons_self e after) before).subset kept

end Shown

end Workers

end Tcp

end CppRaft
