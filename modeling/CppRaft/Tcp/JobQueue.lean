import CppRaft.Tcp.Worker

/-!
# The queue of the workers

`m_fifoWorker` with `m_semaWorker`, for any number of producers and workers. A producer
adds a job and then posts. A worker that has come through the semaphore extracts jobs
until there is none, but a job whose node is marked and a handler that throws send it back
to the semaphore after one job, so posts and extractions are not one to one. The jobs in
the queue are covered by the posts not taken yet, the posts to come, and the workers that
look into the queue next; hence no job is left when all of these are gone.
-/

namespace CppRaft

namespace Tcp

open Machine

/-- Where a producer is: it has nothing to announce, or it is between `AddElement2` and `post`. -/
inductive ProducerPc where
  | idle
  | added
  deriving DecidableEq

/-- Where a worker is in `ThreadFunctionWorker`: in `m_semaWorker.wait()`, at `Extract`, or
with the job it has extracted. -/
inductive WorkerPc where
  | waiting
  | extracting
  | handling
  deriving DecidableEq

/-- How a worker is done with a job: the handler returns, the node of the job is marked for
deletion, or the handler throws. -/
inductive JobEnd where
  | returned
  | markedForDeletion
  | thrown

/-- The inner loop goes on after a handler that returns; the other two go to
`enterLoopPoint`. -/
def JobEnd.next : JobEnd → WorkerPc
  | returned => .extracting
  | markedForDeletion => .waiting
  | thrown => .waiting

/-- The steps of the producers and of the workers. -/
inductive QueueEvent (π ι α : Type) where
  | addElement2 (producer : π) (job : α)
  | post (producer : π)
  | wait (worker : ι)
  | extract (worker : ι)
  | finish (worker : ι) (how : JobEnd)

/-- What happens to a job. -/
inductive JobMark (α : Type) where
  | added (job : α)
  | extracted (job : α)

/-- The jobs added, in this order. -/
def addedJobs {α : Type} : List (JobMark α) → List α :=
  List.filterMap fun
    | .added job => some job
    | .extracted _ => none

/-- The jobs extracted, in this order. -/
def extractedJobs {α : Type} : List (JobMark α) → List α :=
  List.filterMap fun
    | .added _ => none
    | .extracted job => some job

/-- `m_fifoWorker`, the count of `m_semaWorker`, the producers and the workers. -/
structure JobQueue (π ι α : Type) where
  fifo : List α
  sema : ℕ
  producer : π → ProducerPc
  worker : ι → WorkerPc

namespace JobQueue

variable {π ι α : Type} [DecidableEq π] [DecidableEq ι]

/-- The queue when the threads start. -/
def start : JobQueue π ι α where
  fifo := []
  sema := 0
  producer := fun _ => .idle
  worker := fun _ => .waiting

/-- The step an event takes, with `m_nWork` non-zero. -/
def next (s : JobQueue π ι α) :
    QueueEvent π ι α → Option (Effect (JobQueue π ι α) (JobMark α))
  | .addElement2 producer job =>
      if s.producer producer = .idle then
        some ⟨{ s with
          fifo := s.fifo ++ [job]
          producer := Function.update s.producer producer .added }, [.added job]⟩
      else none
  | .post producer =>
      if s.producer producer = .added then
        some (.done { s with
          sema := s.sema + 1
          producer := Function.update s.producer producer .idle })
      else none
  | .wait worker =>
      match s.worker worker, s.sema with
      | .waiting, posts + 1 =>
          some (.done { s with
            sema := posts
            worker := Function.update s.worker worker .extracting })
      | _, _ => none
  | .extract worker =>
      match s.worker worker, s.fifo with
      | .extracting, [] =>
          some (.done { s with worker := Function.update s.worker worker .waiting })
      | .extracting, job :: rest =>
          some ⟨{ s with
            fifo := rest
            worker := Function.update s.worker worker .handling }, [.extracted job]⟩
      | _, _ => none
  | .finish worker how =>
      if s.worker worker = .handling then
        some (.done { s with worker := Function.update s.worker worker how.next })
      else none

variable (π ι α) in
/-- The queue as a machine. -/
def machine : Machine (JobQueue π ι α) (QueueEvent π ι α) (JobMark α) where
  step := next

/-- One step of a run. -/
abbrev Step (π ι α : Type) : Type :=
  Transition (JobQueue π ι α) (QueueEvent π ι α) (JobMark α)

/-- What a step can do, with the marks it leaves. -/
inductive StepResult (s : JobQueue π ι α) : JobQueue π ι α → List (JobMark α) → Prop where
  | added {p : π} {job : α} (idle : s.producer p = .idle) :
      StepResult s
        { s with fifo := s.fifo ++ [job], producer := Function.update s.producer p .added }
        [.added job]
  | posted {p : π} (added : s.producer p = .added) :
      StepResult s
        { s with sema := s.sema + 1, producer := Function.update s.producer p .idle } []
  | woken {w : ι} {posts : ℕ} (waiting : s.worker w = .waiting) (sema : s.sema = posts + 1) :
      StepResult s
        { s with sema := posts, worker := Function.update s.worker w .extracting } []
  | emptied {w : ι} (extracting : s.worker w = .extracting) (fifo : s.fifo = []) :
      StepResult s { s with worker := Function.update s.worker w .waiting } []
  | extracted {w : ι} {job : α} {rest : List α} (extracting : s.worker w = .extracting)
      (fifo : s.fifo = job :: rest) :
      StepResult s
        { s with fifo := rest, worker := Function.update s.worker w .handling }
        [.extracted job]
  | finished {w : ι} (how : JobEnd) (handling : s.worker w = .handling) :
      StepResult s { s with worker := Function.update s.worker w how.next } []

/-- Every step is one of `StepResult`, with the mark for a job that is added or extracted. -/
theorem step_result {s : JobQueue π ι α} {event : QueueEvent π ι α}
    {effect : Effect (JobQueue π ι α) (JobMark α)}
    (stepped : (machine π ι α).step s event = some effect) :
    StepResult s effect.state effect.emitted := by
  cases event with
  | addElement2 p job =>
      obtain ⟨idle, ⟨⟩⟩ := Option.ite_none_right_eq_some.mp stepped
      exact .added idle
  | post p =>
      obtain ⟨added, ⟨⟩⟩ := Option.ite_none_right_eq_some.mp stepped
      exact .posted added
  | wait w =>
      simp only [machine, next] at stepped
      split at stepped
      · cases stepped
        exact .woken ‹_› ‹_›
      · cases stepped
  | extract w =>
      simp only [machine, next] at stepped
      split at stepped
      · cases stepped
        exact .emptied ‹_› ‹_›
      · cases stepped
        exact .extracted ‹_› ‹_›
      · cases stepped
  | finish w how =>
      obtain ⟨handling, ⟨⟩⟩ := Option.ite_none_right_eq_some.mp stepped
      exact .finished how handling

section Order

/-- A step moves jobs from the one end of the queue to the other. -/
theorem StepResult.order {s s' : JobQueue π ι α} {marks : List (JobMark α)}
    (result : StepResult s s' marks) :
    s.fifo ++ addedJobs marks = extractedJobs marks ++ s'.fifo := by
  cases result with
  | added idle => rfl
  | posted added => exact List.append_nil _
  | woken waiting sema => exact List.append_nil _
  | emptied extracting fifo => exact List.append_nil _
  | extracted extracting fifo => exact (List.append_nil _).trans fifo
  | finished how handling => exact List.append_nil _

/-- The jobs extracted and then those in the queue are the jobs added, in the same order. -/
theorem run_order {trace : List (Step π ι α)} {s : JobQueue π ι α}
    (run : (machine π ι α).Run start trace s) :
    addedJobs (emissions trace) = extractedJobs (emissions trace) ++ s.fifo := by
  refine run.invariant (fun trace s =>
    addedJobs (emissions trace) = extractedJobs (emissions trace) ++ s.fifo) rfl ?_
  intro trace s event effect run order stepped
  have moved := (step_result stepped).order
  rw [emissions_append_singleton, addedJobs, extractedJobs, List.filterMap_append,
    List.filterMap_append, ← addedJobs, ← extractedJobs, order, List.append_assoc, moved,
    List.append_assoc]

end Order

section Posts

variable [Fintype π] [Fintype ι]

/-- The chances that a job in the queue will be looked for: a post nobody has taken, a producer
that will post, and a worker that extracts next. -/
def chances (s : JobQueue π ι α) : ℕ :=
  s.sema + threadsAt s.producer .added + threadsAt s.worker .extracting

/-- A step that takes a chance away takes a job with it, or finds none. A worker that goes
back to the semaphore early is no chance, so the posts have to be enough. -/
theorem StepResult.covered {s s' : JobQueue π ι α} {marks : List (JobMark α)}
    (result : StepResult s s' marks) (covered : s.fifo.length ≤ s.chances) :
    s'.fifo.length ≤ s'.chances := by
  unfold chances at covered ⊢
  cases result with
  | added idle =>
      have producers := threadsAt_update idle .added .added
      simp only [reduceCtorEq, if_false, if_true, List.length_append, List.length_singleton]
        at producers ⊢
      omega
  | posted added =>
      have producers := threadsAt_update added .idle .added
      simp only [reduceCtorEq, if_false, if_true] at producers ⊢
      omega
  | woken waiting sema =>
      have workers := threadsAt_update waiting .extracting .extracting
      simp only [reduceCtorEq, if_false, if_true] at workers ⊢
      omega
  | emptied extracting fifo =>
      rw [fifo]
      exact Nat.zero_le _
  | extracted extracting fifo =>
      have workers := threadsAt_update extracting .handling .extracting
      simp only [fifo, reduceCtorEq, if_false, if_true, List.length_cons] at workers covered ⊢
      omega
  | finished how handling =>
      have workers := threadsAt_update handling how.next .extracting
      simp only [reduceCtorEq, if_false] at workers ⊢
      omega

/-- In every run there is a chance for each job in the queue. -/
theorem run_covered {trace : List (Step π ι α)} {s : JobQueue π ι α}
    (run : (machine π ι α).Run start trace s) : s.fifo.length ≤ s.chances :=
  run.invariant (fun _ s => s.fifo.length ≤ s.chances) (Nat.zero_le _)
    fun _ covered stepped => (step_result stepped).covered covered

/-- A queue for which nobody has a chance left is empty. -/
theorem run_fifo_eq_nil {trace : List (Step π ι α)} {s : JobQueue π ι α}
    (run : (machine π ι α).Run start trace s) (waiting : ∀ w, s.worker w = .waiting)
    (zero : s.sema = 0) (announced : ∀ p, s.producer p ≠ .added) : s.fifo = [] := by
  have producers : threadsAt s.producer .added = 0 := threadsAt_eq_zero announced
  have workers : threadsAt s.worker .extracting = 0 :=
    threadsAt_eq_zero fun w extracting => nomatch (waiting w).symm.trans extracting
  have covered := run_covered run
  rw [chances, zero, producers, workers] at covered
  exact List.eq_nil_of_length_eq_zero (Nat.le_zero.mp covered)

/-- For any number of producers and workers and any interleaving of their steps, the jobs
extracted are the jobs added without those still in the queue, each once and in the same order;
and the queue is empty whenever all workers wait on a semaphore at zero and no producer is
between its add and its post. -/
theorem jobs_in_order_none_stranded {trace : List (Step π ι α)} {s : JobQueue π ι α}
    (run : (machine π ι α).Run start trace s) :
    addedJobs (emissions trace) = extractedJobs (emissions trace) ++ s.fifo ∧
      ((∀ w, s.worker w = .waiting) → s.sema = 0 → (∀ p, s.producer p ≠ .added) →
        s.fifo = []) :=
  ⟨run_order run, run_fifo_eq_nil run⟩

/-- Two jobs for two workers: the handler of the first throws, so that its worker goes back to
the semaphore, and the other worker looks for a third job in vain. -/
def twoWorkers : List (QueueEvent Bool Bool ℕ) :=
  [.addElement2 false 1, .addElement2 true 2, .post false, .wait false, .extract false,
    .finish false .thrown, .post true, .wait true, .extract true, .finish true .returned,
    .extract true]

/-- Two jobs, one handler that throws: both jobs are extracted in order and none is left. -/
theorem jobs_in_order_none_stranded_twoWorkers :
    ((machine Bool Bool ℕ).execute start twoWorkers).isSome ∧
      addedJobs (emissions ((machine Bool Bool ℕ).traceOf start twoWorkers)) =
        extractedJobs (emissions ((machine Bool Bool ℕ).traceOf start twoWorkers)) ++
          ((machine Bool Bool ℕ).stateOf start twoWorkers).fifo ∧
      extractedJobs (emissions ((machine Bool Bool ℕ).traceOf start twoWorkers)) = [1, 2] ∧
      ((machine Bool Bool ℕ).stateOf start twoWorkers).fifo = [] := by
  have result := jobs_in_order_none_stranded
    (run_traceOf (machine Bool Bool ℕ) start twoWorkers (by decide))
  exact ⟨by decide, result.1, by decide, result.2 (by decide) (by decide) (by decide)⟩

end Posts

end JobQueue

/-- Where a worker is in the loop of `ThreadFunctionWorker`. -/
def Pc.loopPlace {Ptr : Type} : Pc Ptr → WorkerPc
  | waiting => .waiting
  | extracting => .extracting
  | _ => .handling

namespace Workers

variable {ι Ptr : Type}

/-- The queue of the workers, with one producer that posts as soon as it has added. -/
def jobQueue (s : Workers ι Ptr) : JobQueue Unit ι (Job Ptr) where
  fifo := s.fifo
  sema := s.sema
  producer := fun _ => .idle
  worker := fun i => (s.pc i).loopPlace

section Simulation

variable [DecidableEq ι] [DecidableEq Ptr] {s s' : Workers ι Ptr}

omit [DecidableEq Ptr] in
/-- A move of a worker, as the queue sees it. -/
theorem jobQueue_goto (i : ι) (pc : Pc Ptr) :
    (s.goto i pc).jobQueue =
      { s.jobQueue with worker := Function.update s.jobQueue.worker i pc.loopPlace } := by
  have places : (fun j => (Function.update s.pc i pc j).loopPlace) =
      Function.update (fun j => (s.pc j).loopPlace) i pc.loopPlace :=
    Function.comp_update Pc.loopPlace s.pc i pc
  rw [jobQueue, goto, places]
  rfl

omit [DecidableEq Ptr] in
/-- A worker with a job goes anywhere: the queue sees nothing, or that it is done with the job. -/
theorem jobQueue_leads_goto {i : ι} (handling : (s.pc i).loopPlace = .handling) (pc : Pc Ptr) :
    (JobQueue.machine Unit ι (Job Ptr)).Leads s.jobQueue (s.goto i pc).jobQueue := by
  have finishes (how : JobEnd) (ends : how.next = pc.loopPlace) :
      (JobQueue.machine Unit ι (Job Ptr)).step s.jobQueue (.finish i how) =
        some (.done (s.goto i pc).jobQueue) := by
    rw [jobQueue_goto, ← ends]
    exact if_pos handling
  cases place : pc.loopPlace with
  | waiting => exact .of_step (finishes .markedForDeletion place.symm)
  | extracting => exact .of_step (finishes .returned place.symm)
  | handling =>
      have same : (s.goto i pc).jobQueue = s.jobQueue := by
        rw [jobQueue_goto, place, ← handling]
        exact congrArg (JobQueue.mk _ _ _) (Function.update_eq_self i _)
      rw [same]
      exact .refl

/-- The steps of a worker with a job take it to another place and leave the queue alone. -/
theorem StepResult.jobQueue_of_handling {i : ι} (result : StepResult s (some i) s')
    (handling : (s.pc i).loopPlace = .handling) : ∃ pc, s'.jobQueue = (s.goto i pc).jobQueue := by
  cases result with
  | woken waiting => cases (congrArg Pc.loopPlace waiting).symm.trans handling
  | extracted extracting fifo => cases (congrArg Pc.loopPlace extracting).symm.trans handling
  | moved moves grants => exact ⟨_, rfl⟩
  | dropped drops free => exact ⟨_, rfl⟩
  | decremented drops refers listed => exact ⟨_, rfl⟩
  | added handling free => exact ⟨_, rfl⟩
  | marked handling listed removes => exact ⟨_, rfl⟩
  | deleted removing unlocked => exact ⟨_, rfl⟩

omit [DecidableEq Ptr] in
/-- A job is added and then announced. -/
theorem jobQueue_leads_addElement (job : Job Ptr) :
    (JobQueue.machine Unit ι (Job Ptr)).Leads s.jobQueue (s.addElement job).jobQueue := by
  have added : (JobQueue.machine Unit ι (Job Ptr)).step s.jobQueue (.addElement2 () job) =
      some ⟨{ s.jobQueue with fifo := s.fifo ++ [job], producer := fun _ => .added },
        [.added job]⟩ := rfl
  have posted : (JobQueue.machine Unit ι (Job Ptr)).step
      { s.jobQueue with fifo := s.fifo ++ [job], producer := fun _ => .added } (.post ()) =
        some (.done (s.addElement job).jobQueue) := rfl
  exact (Leads.of_step added).trans (Leads.of_step posted)

/-- A step of a producer among the workers is its two steps at the queue. -/
theorem StepResult.jobQueue_of_producer (result : StepResult s none s') :
    (JobQueue.machine Unit ι (Job Ptr)).Leads s.jobQueue s'.jobQueue := by
  cases result with
  | ignored => exact .refl
  | queued free => exact jobQueue_leads_addElement _
  | counted refers listed =>
      exact jobQueue_leads_addElement (s := s.changeLock _ 1) _

variable [Fintype ι]

/-- The queue follows a worker: each of its steps is one step of the queue, or one that the
queue does not see. -/
theorem jobQueue_leads_advance {i : ι} {choice : Choice Ptr}
    (stepped : s.advance i choice = some s') :
    (JobQueue.machine Unit ι (Job Ptr)).Leads s.jobQueue s'.jobQueue := by
  by_cases waiting : s.pc i = .waiting
  · simp only [advance, waiting] at stepped
    split at stepped
    · cases stepped
    · rename_i posts sema
      cases stepped
      have woken : (JobQueue.machine Unit ι (Job Ptr)).step s.jobQueue (.wait i) =
          some (.done ({ s with sema := posts }.goto i .extracting).jobQueue) := by
        simp only [jobQueue_goto]
        simp [JobQueue.machine, JobQueue.next, jobQueue, waiting, sema, Pc.loopPlace]
      exact .of_step woken
  by_cases extracting : s.pc i = .extracting
  · simp only [advance, extracting] at stepped
    split at stepped
    · rename_i fifo
      cases stepped
      have emptied : (JobQueue.machine Unit ι (Job Ptr)).step s.jobQueue (.extract i) =
          some (.done (s.goto i .waiting).jobQueue) := by
        simp only [jobQueue_goto]
        simp [JobQueue.machine, JobQueue.next, jobQueue, extracting, fifo, Pc.loopPlace]
      exact .of_step emptied
    · rename_i job rest fifo
      cases stepped
      have extracted : (JobQueue.machine Unit ι (Job Ptr)).step s.jobQueue (.extract i) =
          some ⟨({ s with fifo := rest }.goto i (.extracted job)).jobQueue,
            [.extracted job]⟩ := by
        simp only [jobQueue_goto]
        simp [JobQueue.machine, JobQueue.next, jobQueue, extracting, fifo, Pc.loopPlace]
      exact .of_step extracted
  have place : (s.pc i).loopPlace = .handling := by
    cases pc : s.pc i with
    | waiting => exact absurd pc waiting
    | extracting => exact absurd pc extracting
    | _ => rfl
  obtain ⟨pc, same⟩ := (advance_result stepped).jobQueue_of_handling place
  rw [same]
  exact jobQueue_leads_goto place pc

/-- Every step of the workers is a step of the queue, or none: what holds of the queue holds
of the workers. -/
theorem jobQueue_leads_step {event : WorkEvent ι Ptr} {effect : Effect (Workers ι Ptr) Empty}
    (stepped : (machine ι Ptr).step s event = some effect) :
    (JobQueue.machine Unit ι (Job Ptr)).Leads s.jobQueue effect.state.jobQueue := by
  have result := step_result stepped
  obtain ⟨s', next, rfl⟩ := Option.map_eq_some_iff.mp stepped
  cases event with
  | receiveFromSocketAndInform node request => exact result.jobQueue_of_producer
  | addInternalForWorker request node => exact result.jobQueue_of_producer
  | addConnectForWorker => exact result.jobQueue_of_producer
  | run worker choice => exact jobQueue_leads_advance next

/-- The workers with their handlers strand no job either: the queue is empty when all of them
wait on a semaphore at zero. -/
theorem run_fifo_eq_nil {table : List Ptr} {key : Ptr → NodeIdentifierKey}
    {leaderNode thisNode : Option Ptr} {trace : List (Step ι Ptr)}
    (run : (machine ι Ptr).Run (start table key leaderNode thisNode) trace s)
    (waiting : ∀ i, s.pc i = .waiting) (zero : s.sema = 0) : s.fifo = [] := by
  obtain ⟨trace', run'⟩ := run.simulate jobQueue jobQueue_leads_step
  exact JobQueue.run_fifo_eq_nil run' (fun i => congrArg Pc.loopPlace (waiting i)) zero
    fun _ added => nomatch added

end Simulation

end Workers

end Tcp

end CppRaft
