import Mathlib.Algebra.Order.BigOperators.Group.Finset
import CppRaft.Tcp.JobQueue

/-!
# The workers with a bounded semaphore, and how they are stopped

`m_semaWorker` may have a largest count, at which a post is lost; on one of the platforms it
is 100. No more jobs are left behind by that than posts were lost, and none as long as
every job is finished: a worker that is woken looks into the queue until it is empty.

`StopServer` clears `m_nWork`, posts once for each worker and joins the workers. A worker
tests `m_nWork` before it waits and again after it has extracted a job, so a post that finds
it waiting leads it out, and a job that it extracts in between is dropped. As long as the
semaphore can count as many posts as there are workers, none of them is left waiting for it.
A handler may itself wait for what other threads hold, a lock or the end of the use of a
node, and nothing here says that it ever gets it: every join returns if the handlers do.
-/

namespace CppRaft

namespace Tcp

open Machine

/-- Where a worker is in the loops of `ThreadFunctionWorker`: at `while (m_nWork)`, in
`m_semaWorker.wait()`, at `Extract`, at the `m_nWork` after it, in the handler of a job, there but
held up by other threads, or past the loops. -/
inductive LoopPc (α : Type) where
  | testing
  | waiting
  | extracting
  | extracted (job : α)
  | handling (job : α)
  | blocked (job : α)
  | ended
  deriving DecidableEq

namespace LoopPc

variable {α : Type}

def isWaiting : LoopPc α → Bool
  | waiting => true
  | _ => false

def isExtracting : LoopPc α → Bool
  | extracting => true
  | _ => false

/-- The worker looks for jobs until there is none, or has one that it will finish first. -/
def isBusy : LoopPc α → Bool
  | extracting => true
  | extracted _ => true
  | handling _ => true
  | blocked _ => true
  | _ => false

/-- The worker will not look for a job before it has tested `m_nWork`. -/
def isLeaving : LoopPc α → Bool
  | testing => true
  | ended => true
  | _ => false

/-- The steps that a worker can take once `m_nWork` is zero. -/
def stepsLeft : LoopPc α → ℕ
  | waiting => 4
  | handling _ => 4
  | blocked _ => 4
  | extracting => 3
  | extracted _ => 2
  | testing => 1
  | ended => 0

/-- Four steps are the most that a worker has before it leaves. -/
theorem stepsLeft_le (pc : LoopPc α) : pc.stepsLeft ≤ 4 := by
  cases pc <;> simp [stepsLeft]

end LoopPc

/-- Where a worker goes when it is done with a job. -/
def JobEnd.loopNext {α : Type} : JobEnd → LoopPc α
  | returned => .extracting
  | markedForDeletion => .testing
  | thrown => .testing

/-- The steps of the producers, of the workers and of `StopServer`. A wait may be interrupted, and
other threads may hold up a handler and let it go on. -/
inductive PoolEvent (π ι α : Type) where
  | addElement2 (producer : π) (job : α)
  | post (producer : π)
  | test (worker : ι)
  | wait (worker : ι)
  | interrupt (worker : ι)
  | extract (worker : ι)
  | testAgain (worker : ι)
  | finish (worker : ι) (how : JobEnd)
  | block (worker : ι)
  | unblock (worker : ι)
  | stopServer
  | postForWorker

/-- The worker that takes a step. -/
def PoolEvent.worker? {π ι α : Type} : PoolEvent π ι α → Option ι
  | test w => some w
  | wait w => some w
  | interrupt w => some w
  | extract w => some w
  | testAgain w => some w
  | finish w _ => some w
  | _ => none

/-- A worker goes back to the semaphore without having looked for another job. -/
def PoolEvent.endsEarly {π ι α : Type} : PoolEvent π ι α → Bool
  | finish _ .returned => false
  | finish _ _ => true
  | _ => false

/-- The step is taken without an interruption from outside. -/
def PoolEvent.isOwn {π ι α : Type} : PoolEvent π ι α → Bool
  | interrupt _ => false
  | _ => true

/-- `m_fifoWorker`, the count of `m_semaWorker`, the producers and the workers, and the posts that
`StopServer` has still to make once it has cleared `m_nWork`. -/
structure Pool (π ι α : Type) where
  fifo : List α
  sema : ℕ
  stop : Option ℕ
  producer : π → ProducerPc
  worker : ι → LoopPc α

/-- `UnnamedSemaphoreLite::post` on a semaphore with a largest count, if it has one. -/
def postTo (cap : Option ℕ) (sema : ℕ) : ℕ :=
  match cap with
  | some most => if sema < most then sema + 1 else sema
  | none => sema + 1

namespace Pool

variable {π ι α : Type} [DecidableEq ι]

/-- The workers when the threads start. -/
def start : Pool π ι α where
  fifo := []
  sema := 0
  stop := none
  producer := fun _ => .idle
  worker := fun _ => .testing

/-- A worker goes to another place. -/
def goto (s : Pool π ι α) (w : ι) (pc : LoopPc α) : Pool π ι α :=
  { s with worker := Function.update s.worker w pc }

variable [Fintype ι]

/-- The workers in `wait`. -/
def waiting (s : Pool π ι α) : ℕ :=
  threadsAt (fun w => (s.worker w).isWaiting) true

/-- The workers that will not look for a job before they have tested `m_nWork`. -/
def leaving (s : Pool π ι α) : ℕ :=
  threadsAt (fun w => (s.worker w).isLeaving) true

/-- The steps that the workers can take once `m_nWork` is zero. -/
def stepsLeft (s : Pool π ι α) : ℕ :=
  ∑ w, (s.worker w).stepsLeft

/-- A move of a worker changes the number of those in `wait` by its own part. -/
theorem waiting_goto {s : Pool π ι α} {w : ι} {old : LoopPc α} (here : s.worker w = old)
    (pc : LoopPc α) :
    (s.goto w pc).waiting + (if old.isWaiting = true then 1 else 0) =
      s.waiting + if pc.isWaiting = true then 1 else 0 :=
  threadsAt_comp_update LoopPc.isWaiting here pc true

/-- The same for those that leave. -/
theorem leaving_goto {s : Pool π ι α} {w : ι} {old : LoopPc α} (here : s.worker w = old)
    (pc : LoopPc α) :
    (s.goto w pc).leaving + (if old.isLeaving = true then 1 else 0) =
      s.leaving + if pc.isLeaving = true then 1 else 0 :=
  threadsAt_comp_update LoopPc.isLeaving here pc true

/-- The same for the steps that are left. -/
theorem stepsLeft_goto {s : Pool π ι α} {w : ι} {old : LoopPc α} (here : s.worker w = old)
    (pc : LoopPc α) :
    (s.goto w pc).stepsLeft + old.stepsLeft = s.stepsLeft + pc.stepsLeft :=
  sum_comp_update LoopPc.stepsLeft here pc

variable [DecidableEq π]

/-- The step that an event takes. What is emitted are the jobs that are dropped. -/
def next (cap : Option ℕ) (s : Pool π ι α) :
    PoolEvent π ι α → Option (Effect (Pool π ι α) α)
  | .addElement2 producer job =>
      if s.producer producer = .idle then
        some (.done { s with
          fifo := s.fifo ++ [job], producer := Function.update s.producer producer .added })
      else none
  | .post producer =>
      if s.producer producer = .added then
        some (.done { s with
          sema := postTo cap s.sema, producer := Function.update s.producer producer .idle })
      else none
  | .test worker =>
      match s.worker worker with
      | .testing => some (.done (s.goto worker (if s.stop = none then .waiting else .ended)))
      | _ => none
  | .wait worker =>
      match s.worker worker, s.sema with
      | .waiting, posts + 1 => some (.done ({ s with sema := posts }.goto worker .extracting))
      | _, _ => none
  | .interrupt worker =>
      match s.worker worker with
      | .waiting => some (.done (s.goto worker .extracting))
      | _ => none
  | .extract worker =>
      match s.worker worker, s.fifo with
      | .extracting, [] => some (.done (s.goto worker .testing))
      | .extracting, job :: rest =>
          some (.done ({ s with fifo := rest }.goto worker (.extracted job)))
      | _, _ => none
  | .testAgain worker =>
      match s.worker worker with
      | .extracted job =>
          if s.stop = none then some (.done (s.goto worker (.handling job)))
          else some ⟨s.goto worker .testing, [job]⟩
      | _ => none
  | .finish worker how =>
      match s.worker worker with
      | .handling _ => some (.done (s.goto worker how.loopNext))
      | _ => none
  | .block worker =>
      match s.worker worker with
      | .handling job => some (.done (s.goto worker (.blocked job)))
      | _ => none
  | .unblock worker =>
      match s.worker worker with
      | .blocked job => some (.done (s.goto worker (.handling job)))
      | _ => none
  | .stopServer =>
      if s.stop = none then some (.done { s with stop := some (Fintype.card ι) }) else none
  | .postForWorker =>
      match s.stop with
      | some (posts + 1) => some (.done { s with sema := postTo cap s.sema, stop := some posts })
      | _ => none

variable (π ι α) in
/-- The workers as a machine. -/
def machine (cap : Option ℕ) :
    Machine (Pool π ι α) (PoolEvent π ι α) α where
  step := next cap

/-- One step of a run. -/
abbrev Step (π ι α : Type) : Type :=
  Transition (Pool π ι α) (PoolEvent π ι α) α

/-- What a step can do, with the jobs it drops. -/
inductive StepResult (cap : Option ℕ) (s : Pool π ι α) :
    PoolEvent π ι α → Pool π ι α → List α → Prop where
  | added {p : π} {job : α} (idle : s.producer p = .idle) :
      StepResult cap s (.addElement2 p job)
        { s with fifo := s.fifo ++ [job], producer := Function.update s.producer p .added } []
  | announced {p : π} (added : s.producer p = .added) :
      StepResult cap s (.post p)
        { s with
          sema := postTo cap s.sema, producer := Function.update s.producer p .idle } []
  | tested {w : ι} (testing : s.worker w = .testing) :
      StepResult cap s (.test w) (s.goto w (if s.stop = none then .waiting else .ended)) []
  | woken {w : ι} {posts : ℕ} (waiting : s.worker w = .waiting) (sema : s.sema = posts + 1) :
      StepResult cap s (.wait w) ({ s with sema := posts }.goto w .extracting) []
  | interrupted {w : ι} (waiting : s.worker w = .waiting) :
      StepResult cap s (.interrupt w) (s.goto w .extracting) []
  | emptied {w : ι} (extracting : s.worker w = .extracting) (fifo : s.fifo = []) :
      StepResult cap s (.extract w) (s.goto w .testing) []
  | extracted {w : ι} {job : α} {rest : List α} (extracting : s.worker w = .extracting)
      (fifo : s.fifo = job :: rest) :
      StepResult cap s (.extract w) ({ s with fifo := rest }.goto w (.extracted job)) []
  | taken {w : ι} {job : α} (extracted : s.worker w = .extracted job) (works : s.stop = none) :
      StepResult cap s (.testAgain w) (s.goto w (.handling job)) []
  | dropped {w : ι} {job : α} (extracted : s.worker w = .extracted job) (stops : s.stop ≠ none) :
      StepResult cap s (.testAgain w) (s.goto w .testing) [job]
  | finished {w : ι} {job : α} (how : JobEnd) (handling : s.worker w = .handling job) :
      StepResult cap s (.finish w how) (s.goto w how.loopNext) []
  | heldUp {w : ι} {job : α} (handling : s.worker w = .handling job) :
      StepResult cap s (.block w) (s.goto w (.blocked job)) []
  | letOn {w : ι} {job : α} (blocked : s.worker w = .blocked job) :
      StepResult cap s (.unblock w) (s.goto w (.handling job)) []
  | stopped (works : s.stop = none) :
      StepResult cap s .stopServer { s with stop := some (Fintype.card ι) } []
  | posted {posts : ℕ} (stops : s.stop = some (posts + 1)) :
      StepResult cap s .postForWorker { s with sema := postTo cap s.sema, stop := some posts } []

/-- Every step is one of `StepResult`, with the jobs that it drops. -/
theorem step_result {cap : Option ℕ} {s : Pool π ι α} {event : PoolEvent π ι α}
    {effect : Effect (Pool π ι α) α} (stepped : (machine π ι α cap).step s event = some effect) :
    StepResult cap s event effect.state effect.emitted := by
  cases event with
  | addElement2 p job =>
      obtain ⟨idle, ⟨⟩⟩ := Option.ite_none_right_eq_some.mp stepped
      exact .added idle
  | post p =>
      obtain ⟨added, ⟨⟩⟩ := Option.ite_none_right_eq_some.mp stepped
      exact .announced added
  | test w =>
      simp only [machine, next] at stepped
      split at stepped
      · cases stepped
        exact .tested ‹_›
      · cases stepped
  | wait w =>
      simp only [machine, next] at stepped
      split at stepped
      · cases stepped
        exact .woken ‹_› ‹_›
      · cases stepped
  | interrupt w =>
      simp only [machine, next] at stepped
      split at stepped
      · cases stepped
        exact .interrupted ‹_›
      · cases stepped
  | extract w =>
      simp only [machine, next] at stepped
      split at stepped
      · cases stepped
        exact .emptied ‹_› ‹_›
      · cases stepped
        exact .extracted ‹_› ‹_›
      · cases stepped
  | testAgain w =>
      simp only [machine, next] at stepped
      split at stepped
      · split at stepped
        · cases stepped
          exact .taken ‹_› ‹_›
        · cases stepped
          exact .dropped ‹_› ‹_›
      · cases stepped
  | finish w how =>
      simp only [machine, next] at stepped
      split at stepped
      · cases stepped
        exact .finished how ‹_›
      · cases stepped
  | block w =>
      simp only [machine, next] at stepped
      split at stepped
      · cases stepped
        exact .heldUp ‹_›
      · cases stepped
  | unblock w =>
      simp only [machine, next] at stepped
      split at stepped
      · cases stepped
        exact .letOn ‹_›
      · cases stepped
  | stopServer =>
      obtain ⟨works, ⟨⟩⟩ := Option.ite_none_right_eq_some.mp stepped
      exact .stopped works
  | postForWorker =>
      simp only [machine, next] at stepped
      split at stepped
      · cases stepped
        exact .posted ‹_›
      · cases stepped

/-- A post does not lower the count. -/
theorem le_postTo (cap : Option ℕ) (sema : ℕ) : sema ≤ postTo cap sema := by
  unfold postTo
  split
  · split <;> omega
  · omega

/-- A post raises the count by one or, at the largest count, is lost. -/
theorem postTo_eq_or (cap : Option ℕ) (sema : ℕ) :
    postTo cap sema = sema + 1 ∨ postTo cap sema = sema := by
  unfold postTo
  split
  · split
    · exact Or.inl rfl
    · exact Or.inr rfl
  · exact Or.inl rfl

section Stranded

/-- The workers at `Extract`. -/
def extracting (s : Pool π ι α) : ℕ :=
  threadsAt (fun w => (s.worker w).isExtracting) true

omit [DecidableEq π] in
/-- A move of a worker changes the number of those at `Extract` by its own part. -/
theorem extracting_goto {s : Pool π ι α} {w : ι} {old : LoopPc α} (here : s.worker w = old)
    (pc : LoopPc α) :
    (s.goto w pc).extracting + (if old.isExtracting = true then 1 else 0) =
      s.extracting + if pc.isExtracting = true then 1 else 0 :=
  threadsAt_comp_update LoopPc.isExtracting here pc true

/-- The step is a producer's post that finds the semaphore at its largest count. -/
def losesPost (cap : Option ℕ) (s : Pool π ι α) : PoolEvent π ι α → Bool
  | .post _ => decide (postTo cap s.sema = s.sema)
  | _ => false

/-- The producers' posts that are lost in a run. -/
def lostPosts (cap : Option ℕ) (trace : List (Step π ι α)) : ℕ :=
  trace.countP fun t => losesPost cap t.before t.event

section Lost

variable [Fintype π]

/-- The chances that a job in the queue will be looked for. -/
def chances (s : Pool π ι α) : ℕ :=
  s.sema + threadsAt s.producer .added + s.extracting

omit [DecidableEq π] in
/-- A worker outside `Extract` takes no chance away, wherever it goes. -/
theorem chances_le_goto {s : Pool π ι α} {w : ι} {old : LoopPc α} (here : s.worker w = old)
    (not : old.isExtracting = false) (pc : LoopPc α) : s.chances ≤ (s.goto w pc).chances := by
  have count := extracting_goto here pc
  rw [not] at count
  simp only [Bool.false_eq_true, if_false] at count
  show s.sema + threadsAt s.producer .added + s.extracting ≤
    s.sema + threadsAt s.producer .added + (s.goto w pc).extracting
  omega

/-- A step that takes a chance away takes a job with it, finds none, or loses a post. This
is where a semaphore with a largest count differs from one without. -/
theorem StepResult.chances {cap : Option ℕ} {s s' : Pool π ι α} {event : PoolEvent π ι α}
    {drops : List α} (result : StepResult cap s event s' drops) {lost : ℕ}
    (covered : s.fifo.length ≤ s.chances + lost) :
    s'.fifo.length ≤ s'.chances + (lost + if losesPost cap s event then 1 else 0) := by
  -- What a step of a worker outside `Extract` leaves; the queue is as it was.
  have moves {w : ι} {old : LoopPc α} (pc : LoopPc α) (here : s.worker w = old)
      (not : old.isExtracting = false) :
      s.fifo.length ≤ (s.goto w pc).chances + (lost + 0) :=
    covered.trans (Nat.add_le_add_right (chances_le_goto here not pc) lost)
  cases result with
  | @added p job idle =>
      have producers := threadsAt_update idle .added .added
      simp only [reduceCtorEq, if_false, if_true] at producers
      unfold Pool.chances at covered ⊢
      simp only [losesPost, Bool.false_eq_true, if_false, List.length_append,
        List.length_singleton]
      show s.fifo.length + 1 ≤ s.sema +
        threadsAt (Function.update s.producer p .added) .added + s.extracting + (lost + 0)
      omega
  | @announced p added =>
      have producers := threadsAt_update added .idle .added
      simp only [reduceCtorEq, if_false, if_true] at producers
      unfold Pool.chances at covered ⊢
      show s.fifo.length ≤ postTo cap s.sema +
        threadsAt (Function.update s.producer p .idle) .added + s.extracting +
          (lost + if decide (postTo cap s.sema = s.sema) = true then 1 else 0)
      rcases postTo_eq_or cap s.sema with more | same
      · rw [more]
        omega
      · rw [same]
        simp only [decide_true, if_true]
        omega
  | tested testing => exact moves _ testing rfl
  | @woken w posts waits sema =>
      have count := extracting_goto (s := { s with sema := posts }) waits .extracting
      simp only [LoopPc.isExtracting, Bool.false_eq_true, if_false, if_true] at count
      have same : { s with sema := posts }.extracting = s.extracting := rfl
      unfold Pool.chances at covered ⊢
      show s.fifo.length ≤ posts + threadsAt s.producer .added +
        ({ s with sema := posts }.goto w .extracting).extracting + (lost + 0)
      omega
  | interrupted waits => exact moves _ waits rfl
  | emptied _ fifo =>
      show s.fifo.length ≤ _
      rw [fifo]
      exact Nat.zero_le _
  | @extracted w job rest extracting fifo =>
      have count := extracting_goto (s := { s with fifo := rest }) extracting (.extracted job)
      simp only [LoopPc.isExtracting, Bool.false_eq_true, if_false, if_true] at count
      have same : { s with fifo := rest }.extracting = s.extracting := rfl
      rw [fifo, List.length_cons] at covered
      unfold Pool.chances at covered ⊢
      show rest.length ≤ s.sema + threadsAt s.producer .added +
        ({ s with fifo := rest }.goto w (.extracted job)).extracting + (lost + 0)
      omega
  | taken extracted _ => exact moves _ extracted rfl
  | dropped extracted _ => exact moves _ extracted rfl
  | finished how handling => exact moves _ handling rfl
  | heldUp handling => exact moves _ handling rfl
  | letOn blocked => exact moves _ blocked rfl
  | stopped _ => exact covered
  | @posted posts _ =>
      have more := le_postTo cap s.sema
      unfold Pool.chances at covered ⊢
      show s.fifo.length ≤ postTo cap s.sema + threadsAt s.producer .added + s.extracting +
        (lost + 0)
      omega

end Lost

/-- Somebody will look into the queue until it is empty, or will be woken to do so. -/
def Watched (s : Pool π ι α) : Prop :=
  s.fifo ≠ [] → 0 < s.sema ∨ (∃ p, s.producer p = .added) ∨ ∃ w, (s.worker w).isBusy = true

omit [Fintype ι] [DecidableEq π] in
/-- A worker that is busy will look into the queue. -/
theorem Watched.of_busy {s : Pool π ι α} {w : ι} {pc : LoopPc α} (busy : pc.isBusy = true) :
    (s.goto w pc).Watched := by
  refine fun _ => Or.inr (Or.inr ⟨w, ?_⟩)
  simp only [goto, Function.update_self]
  exact busy

/-- With `m_nWork` set and no job ended early, the queue stays watched: a worker goes back
to the semaphore only after it has found the queue empty. -/
theorem StepResult.watched {cap : Option ℕ} (positive : ∀ most ∈ cap, 0 < most)
    {s s' : Pool π ι α} {event : PoolEvent π ι α} {drops : List α}
    (result : StepResult cap s event s' drops) (completes : event.endsEarly = false)
    (works : s'.stop = none) (watched : s.stop = none → s.Watched) : s'.Watched := by
  cases result with
  | @added p job idle =>
      exact fun _ => Or.inr (Or.inl ⟨p, Function.update_self p .added s.producer⟩)
  | announced _ =>
      refine fun _ => Or.inl ?_
      show 0 < postTo cap s.sema
      unfold postTo
      split
      · have room := positive _ rfl
        split <;> omega
      · omega
  | @tested w testing =>
      intro jobs
      rcases watched works jobs with post | producer | ⟨other, busy⟩
      · exact Or.inl post
      · exact Or.inr (Or.inl producer)
      · refine Or.inr (Or.inr ⟨other, ?_⟩)
        have different : other ≠ w := by
          rintro rfl
          rw [testing] at busy
          cases busy
        simp only [goto, Function.update_of_ne different]
        exact busy
  | woken _ _ => exact .of_busy rfl
  | interrupted _ => exact .of_busy rfl
  | emptied _ fifo => exact fun jobs => absurd fifo jobs
  | extracted _ _ => exact .of_busy rfl
  | taken _ _ => exact .of_busy rfl
  | dropped _ stops => exact absurd works stops
  | finished how _ =>
      cases how with
      | returned => exact .of_busy rfl
      | markedForDeletion => cases completes
      | thrown => cases completes
  | heldUp _ => exact .of_busy rfl
  | letOn _ => exact .of_busy rfl
  | stopped _ => cases works
  | posted _ => cases works

/-- For any number of producers and workers, any interleaving of their steps and any largest count
of the semaphore: when all workers wait on a semaphore at zero and no producer is between its add
and its post, no more jobs are in the queue than producers' posts were lost; and none is, unless
the handler of some job threw or its node was marked. -/
theorem stranded_jobs_le_lost_posts [Fintype π] {cap : Option ℕ} {trace : List (Step π ι α)}
    {s : Pool π ι α} (run : (machine π ι α cap).Run start trace s)
    (waiting : ∀ w, s.worker w = .waiting) (zero : s.sema = 0)
    (announced : ∀ p, s.producer p ≠ .added) :
    s.fifo.length ≤ lostPosts cap trace ∧
      ((∀ most ∈ cap, 0 < most) → s.stop = none → (∀ t ∈ trace, t.event.endsEarly = false) →
        s.fifo = []) := by
  have covered : s.fifo.length ≤ s.chances + lostPosts cap trace := by
    apply run.invariant fun trace s => s.fifo.length ≤ s.chances + lostPosts cap trace
    · exact Nat.zero_le _
    · intro trace s event effect _ covered stepped
      rw [lostPosts, List.countP_append, List.countP_singleton]
      exact (step_result stepped).chances covered
  refine ⟨?_, fun positive works complete => ?_⟩
  · have producers : threadsAt s.producer .added = 0 := threadsAt_eq_zero announced
    have workers : s.extracting = 0 := threadsAt_eq_zero fun w here => by
      rw [waiting w] at here
      cases here
    rw [chances, zero, producers, workers] at covered
    omega
  · have watched : s.stop = none → s.Watched := by
      apply run.invariant_along (P := fun _ t => t.event.endsEarly = false)
        (fun _ s => s.stop = none → s.Watched) ?_ ?_ (along_of_forall complete)
      · exact fun _ jobs => absurd rfl jobs
      · intro trace s event effect _ watched stepped completes works
        exact (step_result stepped).watched positive completes works watched
    by_contra jobs
    rcases watched works jobs with post | ⟨p, added⟩ | ⟨w, busy⟩
    · omega
    · exact announced p added
    · rw [waiting w] at busy
      cases busy

/-- A semaphore that counts to one loses the post of the second job, and the first is finished by
an exception: the second is left. -/
def lostPost : List (PoolEvent Bool Unit ℕ) :=
  [.test (), .addElement2 false 1, .addElement2 true 2, .post false, .post true, .wait (),
    .extract (), .testAgain (), .finish () .thrown, .test ()]

/-- One post is lost and one job stays in the queue. -/
theorem stranded_job_of_lost_post :
    ((machine Bool Unit ℕ (some 1)).stateOf start lostPost).fifo = [2] ∧
      ((machine Bool Unit ℕ (some 1)).stateOf start lostPost).fifo.length ≤
        lostPosts (some 1) ((machine Bool Unit ℕ (some 1)).traceOf start lostPost) :=
  ⟨by decide, (stranded_jobs_le_lost_posts
    (run_traceOf (machine Bool Unit ℕ (some 1)) start lostPost (by decide)) (by decide)
    (by decide) (by decide)).1⟩

end Stranded

section Stop

/-- Once `m_nWork` is zero, a post is there or to come for each worker in `wait`. -/
def Covered (s : Pool π ι α) : Prop :=
  ∀ posts, s.stop = some posts → s.waiting ≤ s.sema + posts

omit [DecidableEq π] in
/-- A worker that moves with `m_nWork` at zero and does not begin to wait. -/
theorem Covered.goto {s : Pool π ι α} {w : ι} {pc : LoopPc α} (covered : s.Covered)
    (busy : s.stop ≠ none → pc.isWaiting = false) : (s.goto w pc).Covered := by
  intro posts stops
  have count := waiting_goto (s := s) (w := w) rfl pc
  have here := covered posts stops
  rw [busy (by rw [show s.stop = some posts from stops]; exact Option.some_ne_none _)] at count
  simp only [Bool.false_eq_true, if_false] at count
  show (s.goto w pc).waiting ≤ s.sema + posts
  omega

/-- A step keeps a post for each worker in `wait`, unless more workers than the semaphore can
count wait for theirs. -/
theorem StepResult.covered {cap : Option ℕ} (enough : ∀ most ∈ cap, Fintype.card ι ≤ most)
    {s s' : Pool π ι α} {event : PoolEvent π ι α} {drops : List α}
    (result : StepResult cap s event s' drops)
    (covered : s.Covered) : s'.Covered := by
  cases result with
  | added _ => exact covered
  | announced _ =>
      intro posts stops
      have here := covered posts stops
      have more := le_postTo cap s.sema
      show s.waiting ≤ postTo cap s.sema + posts
      omega
  | tested testing =>
      refine covered.goto fun stops => ?_
      rw [if_neg stops]
      rfl
  | @woken w rest waits sema =>
      intro posts stops
      have here := covered posts stops
      have count := waiting_goto (s := { s with sema := rest }) waits .extracting
      simp only [LoopPc.isWaiting, if_true, Bool.false_eq_true, if_false] at count
      show ({ s with sema := rest }.goto w .extracting).waiting ≤ rest + posts
      have same : { s with sema := rest }.waiting = s.waiting := rfl
      omega
  | interrupted _ => exact covered.goto fun _ => rfl
  | emptied _ _ => exact covered.goto fun _ => rfl
  | @extracted w job rest _ _ =>
      exact Covered.goto (s := { s with fifo := rest }) covered fun _ => rfl
  | taken _ _ => exact covered.goto fun _ => rfl
  | dropped _ _ => exact covered.goto fun _ => rfl
  | finished how _ => exact covered.goto fun _ => by cases how <;> rfl
  | heldUp _ => exact covered.goto fun _ => rfl
  | letOn _ => exact covered.goto fun _ => rfl
  | stopped works =>
      intro posts stops
      cases stops
      have most := threadsAt_le_card (fun w => (s.worker w).isWaiting) true
      show s.waiting ≤ s.sema + Fintype.card ι
      exact Nat.le_trans most (Nat.le_add_left _ _)
  | @posted posts stops =>
      intro _ after
      cases after
      have here := covered (posts + 1) stops
      have all := threadsAt_le_card (fun w => (s.worker w).isWaiting) true
      show s.waiting ≤ postTo cap s.sema + posts
      unfold postTo
      split
      · rename_i most
        split
        · omega
        · have room := enough most rfl
          have reached : s.waiting ≤ Fintype.card ι := all
          omega
      · omega

/-- The workers that have nothing to do but to leave, once `m_nWork` is zero. -/
def leavers (s : Pool π ι α) : ℕ :=
  if s.stop = none then 0 else s.leaving

/-- Once `m_nWork` is zero the workers that are leaving stay so, and one that drops a job joins
them; before, none is dropped. -/
theorem StepResult.leavers {cap : Option ℕ} {s s' : Pool π ι α} {event : PoolEvent π ι α}
    {drops : List α} (result : StepResult cap s event s' drops) :
    s.leavers + drops.length ≤ s'.leavers := by
  have moves {w : ι} {old pc : LoopPc α} (here : s.worker w = old)
      (stays : old.isLeaving = true → pc.isLeaving = true) :
      s.leavers ≤ (s.goto w pc).leavers := by
    have count := leaving_goto here pc
    show (if s.stop = none then 0 else s.leaving) ≤
      if s.stop = none then 0 else (s.goto w pc).leaving
    split
    · exact Nat.le_refl _
    · by_cases leaves : old.isLeaving = true
      · rw [if_pos leaves, if_pos (stays leaves)] at count
        omega
      · rw [if_neg leaves] at count
        omega
  cases result with
  | added _ => exact Nat.le_refl _
  | announced _ => exact Nat.le_refl _
  | @tested w testing =>
      by_cases works : s.stop = none
      · rw [Pool.leavers, if_pos works]
        exact Nat.zero_le _
      · rw [if_neg works]
        exact moves testing fun _ => rfl
  | woken waits sema => exact moves waits fun leaves => nomatch leaves
  | interrupted waits => exact moves waits fun leaves => nomatch leaves
  | emptied extracting _ => exact moves extracting fun leaves => nomatch leaves
  | extracted extracting _ => exact moves extracting fun leaves => nomatch leaves
  | taken extracted _ => exact moves extracted fun leaves => nomatch leaves
  | @dropped w job extracted stops =>
      have count := leaving_goto extracted .testing
      simp only [LoopPc.isLeaving, Bool.false_eq_true, if_false, if_true] at count
      show (if s.stop = none then 0 else s.leaving) + 1 ≤
        if s.stop = none then 0 else (s.goto w .testing).leaving
      rw [if_neg stops, if_neg stops]
      omega
  | finished how handling => exact moves handling fun leaves => nomatch leaves
  | heldUp handling => exact moves handling fun leaves => nomatch leaves
  | letOn blocked => exact moves blocked fun leaves => nomatch leaves
  | stopped works =>
      rw [Pool.leavers, if_pos works]
      exact Nat.zero_le _
  | @posted posts stops =>
      have works : s.stop ≠ none := by
        rw [stops]
        exact Option.some_ne_none _
      rw [Pool.leavers, if_neg works]
      exact Nat.le_refl _

/-- A worker that takes a step with `m_nWork` at zero has fewer left, so the workers cannot
go on for ever. -/
theorem StepResult.stepsLeft {cap : Option ℕ} {s s' : Pool π ι α} {event : PoolEvent π ι α}
    {drops : List α} (result : StepResult cap s event s' drops) (stops : s.stop ≠ none) :
    s'.stop ≠ none ∧ s'.stepsLeft + (if event.worker?.isSome then 1 else 0) ≤ s.stepsLeft := by
  have moves {w : ι} {old pc : LoopPc α} (here : s.worker w = old)
      (fewer : pc.stepsLeft < old.stepsLeft) :
      (s.goto w pc).stepsLeft + 1 ≤ s.stepsLeft := by
    have sum := stepsLeft_goto here pc
    omega
  cases result with
  | added _ => exact ⟨stops, Nat.le_refl _⟩
  | announced _ => exact ⟨stops, Nat.le_refl _⟩
  | tested testing =>
      rw [if_neg stops]
      exact ⟨stops, moves testing (by simp [LoopPc.stepsLeft])⟩
  | woken waits sema => exact ⟨stops, moves waits (by simp [LoopPc.stepsLeft])⟩
  | interrupted waits => exact ⟨stops, moves waits (by simp [LoopPc.stepsLeft])⟩
  | emptied extracting _ => exact ⟨stops, moves extracting (by simp [LoopPc.stepsLeft])⟩
  | extracted extracting _ => exact ⟨stops, moves extracting (by simp [LoopPc.stepsLeft])⟩
  | taken _ works => exact absurd works stops
  | dropped extracted _ => exact ⟨stops, moves extracted (by simp [LoopPc.stepsLeft])⟩
  | finished how handling =>
      exact ⟨stops, moves handling (by cases how <;> simp [JobEnd.loopNext, LoopPc.stepsLeft])⟩
  | @heldUp w job handling =>
      have sum := stepsLeft_goto handling (.blocked job)
      exact ⟨stops, Nat.le_of_eq (Nat.add_right_cancel sum)⟩
  | @letOn w job blocked =>
      have sum := stepsLeft_goto blocked (.handling job)
      exact ⟨stops, Nat.le_of_eq (Nat.add_right_cancel sum)⟩
  | stopped works => exact absurd works stops
  | posted _ => exact ⟨Option.some_ne_none _, Nat.le_refl _⟩

/-- The steps of workers in a run. -/
def workerSteps (trace : List (Step π ι α)) : ℕ :=
  trace.countP fun t => t.event.worker?.isSome

/-- In every run there is a post for each worker in `wait`, once `m_nWork` is zero:
`StopServer` makes as many posts as there are workers. A semaphore that cannot count that
far would lose some. -/
theorem run_covered {cap : Option ℕ} (enough : ∀ most ∈ cap, Fintype.card ι ≤ most)
    {trace : List (Step π ι α)} {s : Pool π ι α}
    (run : (machine π ι α cap).Run start trace s) : s.Covered := by
  apply run.invariant fun _ s => s.Covered
  · intro posts stops
    cases stops
  · intro trace s event effect _ covered stepped
    exact (step_result stepped).covered enough covered

/-- Each job that is dropped is dropped by a worker on its way out. -/
theorem run_dropped {cap : Option ℕ} {trace : List (Step π ι α)} {s : Pool π ι α}
    (run : (machine π ι α cap).Run start trace s) : (emissions trace).length ≤ s.leavers := by
  apply run.invariant fun trace s => (emissions trace).length ≤ s.leavers
  · exact Nat.zero_le _
  · intro trace s event effect _ bounded stepped
    have leavers := (step_result stepped).leavers
    rw [emissions_append_singleton, List.length_append]
    exact (Nat.add_le_add_right bounded _).trans leavers

/-- Once `m_nWork` is zero the workers take only as many steps as they have left. -/
theorem workerSteps_le {cap : Option ℕ} {trace : List (Step π ι α)} {s s' : Pool π ι α}
    (run : (machine π ι α cap).Run s trace s') (stops : s.stop ≠ none) :
    s'.stop ≠ none ∧ workerSteps trace + s'.stepsLeft ≤ s.stepsLeft := by
  apply run.invariant fun trace s' =>
    s'.stop ≠ none ∧ workerSteps trace + s'.stepsLeft ≤ s.stepsLeft
  · exact ⟨stops, by simp [workerSteps]⟩
  · intro trace s' event effect _ earlier stepped
    obtain ⟨stopped, fewer⟩ := (step_result stepped).stepsLeft earlier.1
    refine ⟨stopped, ?_⟩
    have spent := earlier.2
    simp only [workerSteps, List.countP_append, List.countP_singleton] at spent ⊢
    omega

/-- A worker that has not left can go on, if it is neither waiting for a post nor held up in a
handler. -/
theorem exists_step {cap : Option ℕ} {s : Pool π ι α} {w : ι} (stays : s.worker w ≠ .ended)
    (free : ∀ job, s.worker w ≠ .blocked job) (post : s.worker w = .waiting → 0 < s.sema) :
    ∃ event : PoolEvent π ι α, event.worker? = some w ∧ event.isOwn = true ∧
      ((machine π ι α cap).step s event).isSome := by
  cases here : s.worker w with
  | testing => exact ⟨.test w, rfl, rfl, by simp [machine, next, here]⟩
  | waiting =>
      obtain ⟨posts, sema⟩ := Nat.exists_eq_add_of_le' (post here)
      exact ⟨.wait w, rfl, rfl, by simp [machine, next, here, sema]⟩
  | extracting =>
      refine ⟨.extract w, rfl, rfl, ?_⟩
      cases fifo : s.fifo <;> simp [machine, next, here, fifo]
  | extracted job =>
      refine ⟨.testAgain w, rfl, rfl, ?_⟩
      by_cases works : s.stop = none <;> simp [machine, next, here, works]
  | handling job => exact ⟨.finish w .returned, rfl, rfl, by simp [machine, next, here]⟩
  | blocked job => exact absurd here (free job)
  | ended => exact absurd here stays

/-- For any number of producers and workers, any interleaving of their steps, and a semaphore that
can count as many posts as there are workers: once `StopServer` has made its posts, every worker
has left its loops, is held up by other threads in the handler of a job, or can take a step of its
own; the workers together take at most four steps for each of them from then on, and at most one
job for each of them has been extracted and dropped. So every join of `StopServer` returns if the
handlers at work do. -/
theorem stopServer_reaches_every_worker {cap : Option ℕ}
    (enough : ∀ most ∈ cap, Fintype.card ι ≤ most) {trace : List (Step π ι α)} {s : Pool π ι α}
    (run : (machine π ι α cap).Run start trace s) (posted : s.stop = some 0) :
    (∀ w, s.worker w = .ended ∨ (∃ job, s.worker w = .blocked job) ∨
        ∃ event : PoolEvent π ι α, event.worker? = some w ∧ event.isOwn = true ∧
          ((machine π ι α cap).step s event).isSome) ∧
      (∀ more s', (machine π ι α cap).Run s more s' → workerSteps more ≤ 4 * Fintype.card ι) ∧
      (emissions trace).length ≤ Fintype.card ι := by
  have stops : s.stop ≠ none := by
    rw [posted]
    exact Option.some_ne_none _
  refine ⟨fun w => ?_, fun more s' rest => ?_, ?_⟩
  · refine or_iff_not_imp_left.mpr fun stays => or_iff_not_imp_left.mpr fun free =>
      exists_step stays (not_exists.mp free) fun waits => ?_
    have counted : 0 < s.waiting := threadsAt_pos (i := w) (by rw [waits]; rfl)
    have covered := run_covered enough run 0 posted
    omega
  · have spent := (workerSteps_le rest stops).2
    have most : s.stepsLeft ≤ ∑ _w : ι, 4 :=
      Finset.sum_le_sum fun w _ => (s.worker w).stepsLeft_le
    rw [Finset.sum_const_nat fun _ _ => rfl, Finset.card_univ] at most
    omega
  · have dropped := run_dropped run
    rw [leavers, if_neg stops] at dropped
    exact Nat.le_trans dropped (threadsAt_le_card _ _)

/-- Two workers wait, one of two jobs is being handled when `StopServer` begins and is held up, and
the two posts follow. -/
def stopWhileHandling : List (PoolEvent Unit Bool ℕ) :=
  [.test false, .test true, .addElement2 () 1, .post (), .addElement2 () 2, .wait false,
    .extract false, .testAgain false, .block false, .stopServer, .postForWorker, .postForWorker]

/-- One worker is held up, and the other can go on. -/
theorem stopServer_reaches_both_workers :
    ((machine Unit Bool ℕ (some 100)).execute start stopWhileHandling).isSome ∧
      ((machine Unit Bool ℕ (some 100)).stateOf start stopWhileHandling).worker false =
        .blocked 1 ∧
      ∃ event : PoolEvent Unit Bool ℕ, event.worker? = some true ∧ event.isOwn = true ∧
        ((machine Unit Bool ℕ (some 100)).step
          ((machine Unit Bool ℕ (some 100)).stateOf start stopWhileHandling) event).isSome := by
  refine ⟨by decide, by decide, ?_⟩
  rcases (stopServer_reaches_every_worker (by decide)
    (run_traceOf (machine Unit Bool ℕ (some 100)) start stopWhileHandling (by decide))
    (by decide)).1 true with ended | ⟨job, blocked⟩ | goesOn
  · exact absurd ended (by decide)
  · have waits : ((machine Unit Bool ℕ (some 100)).stateOf start stopWhileHandling).worker true =
        .waiting := by decide
    rw [waits] at blocked
    cases blocked
  · exact goesOn

/-- With a semaphore that counts to one, the second post is lost and one of two workers waits on. -/
example :
    let s := (machine Unit Bool ℕ (some 1)).stateOf start
      [.test false, .test true, .stopServer, .postForWorker, .postForWorker, .wait false,
        .extract false, .test false]
    s.stop = some 0 ∧ s.worker true = .waiting ∧ s.sema = 0 := by
  decide

end Stop

end Pool

end Tcp

end CppRaft
