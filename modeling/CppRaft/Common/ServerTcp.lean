import CppRaft.Machine.Trace
import CppRaft.Tcp.Sockets

/-!
# The listening server and its stop

`ServerTCP::RunServer` accepts connections and hands each to a callback while the work status is
`RUN`. Another thread calls `StopServer`, which is to set the status, close the socket and wait for
the loop. Its first line returns if the status is not `RUN` or not `INITED2`, and a status is never
both, so that nothing else of it is executed.

The two threads interleave at their reads and writes of the members. Where one of them uses a
closed socket in an `fd_set`, the step has no successor.
-/

namespace CppRaft

namespace Common

open Machine

/-- `WORK_STATUSES`. -/
inductive WorkStatus where
  | stopped
  | tryingToStop
  | run
  | inited2
  deriving DecidableEq, Repr

/-- `E_FATAL`. -/
def eFatal : Int := -1

/-- `E_SELECT`. -/
def eSelect : Int := -28

/-- Where the loop is in `RunServer` and, from `select` to `accept`, in `ServerAccept`. -/
inductive RunPc where
  | test
  | select
  | waiting
  | accept
  /-- `ServerAccept` has returned 1. -/
  | accepted (connection : ℕ)
  | closeClient
  /-- `ServerAccept` has returned something else. -/
  | refused (nError : Int)
  | leave
  | stop
  | clearId
  | finished
  deriving DecidableEq, Repr

/-- Where the other thread is in `StopServer`. -/
inductive StopPc where
  | idle
  | guardRun
  | guardInited
  | compare
  | trying
  | close
  | signal
  | spinInited
  | spinTrying
  | stop
  | ownStop
  | ownClearId
  | ownClose
  | returned
  deriving DecidableEq, Repr

/-- What the system decides for a step of the loop: how `select` returns, what `accept` yields, and
whether the callback takes the descriptor of its client out of the socket object. -/
inductive RunChoice where
  | proceed
  | timeout
  | interrupted
  | selectFailed
  | ready
  | notSet
  | acceptFailed
  | client (descriptor : ℕ)
  | took
  deriving DecidableEq, Repr

/-- A step of the loop or of the thread that calls `StopServer`. -/
inductive ServerEvent where
  | runs (choice : RunChoice)
  | stops
  deriving DecidableEq, Repr

/-- A connection is accepted, handed to the callback, or its descriptor is closed. -/
inductive ServerMark where
  | accepted (connection : ℕ)
  | callback (connection : ℕ)
  | closed (descriptor : Int)
  deriving DecidableEq, Repr

/-- The members of `ServerTCP`, whether the system still listens on its descriptor, the client
socket of `RunServer`, the number of connections accepted so far, and where the threads are. -/
structure ServerTcp where
  workStatus : WorkStatus
  serverThreadId : Int
  socket : Int
  listens : Bool := true
  clientSocket : Int := -1
  connections : ℕ := 0
  runPc : RunPc := .test
  stopPc : StopPc := .idle
  deriving DecidableEq, Repr

/-- The identifiers of the two threads. -/
structure ThreadIds where
  runs : Int
  stops : Int
  different : stops ≠ runs

namespace ServerTcp

/-- The loop goes on elsewhere. -/
def goto (s : ServerTcp) (pc : RunPc) : ServerTcp :=
  { s with runPc := pc }

/-- `closeC` of the listening socket. -/
def closeListening (s : ServerTcp) : ServerTcp :=
  { s with socket := -1, listens := s.listens && (Tcp.closeC s.socket).isEmpty }

/-- A step of `RunServer` in its loop, up to the one that leaves it. -/
def serve (s : ServerTcp) (choice : RunChoice) : Option (Effect ServerTcp ServerMark) :=
  match s.runPc, choice with
  | .test, .proceed =>
      some (.done (s.goto (if s.workStatus = .run then .select else .leave)))
  | .select, .proceed => if 0 ≤ s.socket then some (.done (s.goto .waiting)) else none
  | .waiting, .timeout => some (.done (s.goto (.refused 0)))
  | .waiting, .interrupted => some (.done (s.goto (.refused 2)))
  | .waiting, .selectFailed => some (.done (s.goto (.refused eSelect)))
  | .waiting, .notSet => if 0 ≤ s.socket then some (.done (s.goto (.refused eFatal))) else none
  | .waiting, .ready => if 0 ≤ s.socket then some (.done (s.goto .accept)) else none
  | .accept, .acceptFailed => some (.done (s.goto (.refused 0)))
  | .accept, .client descriptor =>
      if 0 ≤ s.socket then
        some ⟨{ s with
          runPc := .accepted s.connections
          clientSocket := descriptor
          connections := s.connections + 1 }, [.accepted s.connections]⟩
      else none
  | .accepted connection, .proceed => some ⟨s.goto .closeClient, [.callback connection]⟩
  | .accepted connection, .took =>
      some ⟨{ s with runPc := .closeClient, clientSocket := -1 }, [.callback connection]⟩
  | .closeClient, .proceed =>
      some ⟨{ s with runPc := .test, clientSocket := -1 },
        (Tcp.closeC s.clientSocket).map .closed⟩
  | .refused nError, .proceed => some (.done (s.goto (if nError < 0 then .leave else .test)))
  | _, _ => none

/-- A step of `RunServer`. -/
def runServer (s : ServerTcp) (choice : RunChoice) : Option (Effect ServerTcp ServerMark) :=
  match s.runPc with
  | .leave => some (.done (s.closeListening.goto .stop))
  | .stop => some (.done { s with runPc := .clearId, workStatus := .stopped })
  | .clearId => some (.done { s with runPc := .finished, serverThreadId := 0 })
  | _ => s.serve choice

/-- The thread in `StopServer` goes on elsewhere. -/
def stopAt (s : ServerTcp) (pc : StopPc) : ServerTcp :=
  { s with stopPc := pc }

/-- A step of `StopServer`, called by the given thread. -/
def stopServer (caller : Int) (s : ServerTcp) : Option ServerTcp :=
  match s.stopPc with
  | .idle => some (s.stopAt .guardRun)
  | .guardRun => some (s.stopAt (if s.workStatus ≠ .run then .returned else .guardInited))
  | .guardInited => some (s.stopAt (if s.workStatus ≠ .inited2 then .returned else .compare))
  | .compare => some (s.stopAt (if caller ≠ s.serverThreadId then .trying else .ownStop))
  | .trying => some { s with stopPc := .close, workStatus := .tryingToStop }
  | .close => some (s.closeListening.stopAt .signal)
  | .signal => some (s.stopAt .spinInited)
  | .spinInited => some (s.stopAt (if s.workStatus ≠ .inited2 then .spinTrying else .stop))
  | .spinTrying => some (s.stopAt (if s.workStatus = .tryingToStop then .spinInited else .stop))
  | .stop => some { s with stopPc := .returned, workStatus := .stopped }
  | .ownStop => some { s with stopPc := .ownClearId, workStatus := .stopped }
  | .ownClearId => some { s with stopPc := .ownClose, serverThreadId := 0 }
  | .ownClose => some (s.closeListening.stopAt .returned)
  | .returned => none

/-- The two threads. -/
def machine (ids : ThreadIds) : Machine ServerTcp ServerEvent ServerMark where
  step := fun s event =>
    match event with
    | .runs choice => s.runServer choice
    | .stops => (s.stopServer ids.stops).map Effect.done

/-- The server when its loop starts, on a descriptor. -/
def executing (ids : ThreadIds) (descriptor : ℕ) : ServerTcp where
  workStatus := .run
  serverThreadId := ids.runs
  socket := descriptor

end ServerTcp

/-- The loop has closed its socket. -/
def RunPc.hasClosed : RunPc → Bool
  | .stop => true
  | .clearId => true
  | .finished => true
  | _ => false

/-- The loop has ended and set the status. -/
def RunPc.hasEnded : RunPc → Bool
  | .clearId => true
  | .finished => true
  | _ => false

/-- The loop closes its socket before it sets the status. -/
theorem RunPc.hasClosed_of_hasEnded {pc : RunPc} (ended : pc.hasEnded) : pc.hasClosed := by
  cases pc with
  | clearId => rfl
  | finished => rfl
  | _ => cases ended

/-- As long as the socket is open the loop has not ended. -/
theorem RunPc.hasEnded_of_hasClosed {pc : RunPc} (opened : pc.hasClosed = false) :
    pc.hasEnded = false :=
  Bool.eq_false_iff.mpr fun ended =>
    Bool.eq_false_iff.mp opened (RunPc.hasClosed_of_hasEnded ended)

/-- The loop is not about to end: `ServerAccept` has not reported an error. -/
def RunPc.Serving : RunPc → Prop
  | .leave => False
  | .stop => False
  | .clearId => False
  | .finished => False
  | .refused nError => 0 ≤ nError
  | _ => True

/-- A loop that serves has not ended. -/
theorem RunPc.not_hasEnded_of_serving {pc : RunPc} (serving : pc.Serving) : ¬ pc.hasEnded := by
  intro ended
  cases pc with
  | clearId => exact serving
  | finished => exact serving
  | _ => cases ended

/-- `select` has not failed. -/
def RunChoice.Regular : RunChoice → Prop
  | .selectFailed => False
  | .notSet => False
  | _ => True

/-- `StopServer` has not come past its first line. -/
def StopPc.AtGuard : StopPc → Prop
  | .idle => True
  | .guardRun => True
  | .guardInited => True
  | .returned => True
  | _ => False

namespace ServerTcp

/-- The loop only moved on. -/
structure Serves (s s' : ServerTcp) : Prop where
  before : s.runPc.hasClosed = false
  after : s'.runPc.hasClosed = false
  status : s'.workStatus = s.workStatus
  socket : s'.socket = s.socket
  listens : s'.listens = s.listens
  stopPc : s'.stopPc = s.stopPc

/-- Inside the loop only the place, the client and the count of connections change. -/
theorem serve_result {s : ServerTcp} {choice : RunChoice} {effect : Effect ServerTcp ServerMark}
    (served : s.serve choice = some effect) : Serves s effect.state := by
  unfold serve at served
  split at served
  case h_14 => cases served
  all_goals
    rename_i here
    -- Some steps test the socket, the status or the error code first.
    try split at served
    all_goals
      first
      | cases served; exact ⟨by rw [here]; rfl, rfl, rfl, rfl, rfl, rfl⟩
      | cases served

/-- What a step of the loop does to the members: nothing while it serves, and then one thing at a
time. -/
inductive RunStep (s : ServerTcp) : ServerTcp → List ServerMark → Prop where
  | serves {s' : ServerTcp} {marks : List ServerMark} (serves : Serves s s') : RunStep s s' marks
  | closes (leaves : s.runPc = .leave) : RunStep s (s.closeListening.goto .stop) []
  | stops (closed : s.runPc = .stop) :
      RunStep s { s with runPc := .clearId, workStatus := .stopped } []
  | clears (stopped : s.runPc = .clearId) :
      RunStep s { s with runPc := .finished, serverThreadId := 0 } []

/-- The steps of the loop, by what they do to the members that the other thread looks at. -/
theorem runServer_result {s : ServerTcp} {choice : RunChoice}
    {effect : Effect ServerTcp ServerMark} (stepped : s.runServer choice = some effect) :
    RunStep s effect.state effect.emitted := by
  unfold runServer at stepped
  split at stepped
  case h_1 leaves =>
    cases stepped
    exact .closes leaves
  case h_2 closed =>
    cases stepped
    exact .stops closed
  case h_3 stopped =>
    cases stepped
    exact .clears stopped
  case h_4 => exact .serves (serve_result stepped)

/-- What `StopServer` leaves undisturbed: the status and the socket are those of the loop. -/
structure Undisturbed (descriptor : ℕ) (s : ServerTcp) : Prop where
  guarded : s.stopPc.AtGuard
  status : s.workStatus = if s.runPc.hasEnded then .stopped else .run
  socket : s.socket = if s.runPc.hasClosed then (-1 : Int) else (descriptor : Int)
  listens : s.listens = (!s.runPc.hasClosed || decide (descriptor = 0))

namespace Undisturbed

variable {descriptor : ℕ} {s s' : ServerTcp} {marks : List ServerMark}

/-- A step of the loop. -/
theorem runs (undisturbed : Undisturbed descriptor s) (step : RunStep s s' marks) :
    Undisturbed descriptor s' := by
  obtain ⟨guarded, status, socket, listens⟩ := undisturbed
  cases step with
  | serves serves =>
      obtain ⟨before, after, sameStatus, sameSocket, sameListens, sameStop⟩ := serves
      rw [before] at socket listens
      rw [RunPc.hasEnded_of_hasClosed before] at status
      refine ⟨sameStop ▸ guarded, ?_, ?_, ?_⟩
      · rw [sameStatus, status, RunPc.hasEnded_of_hasClosed after]
      · rw [sameSocket, socket, after]
      · rw [sameListens, listens, after]
  | closes leaves =>
      rw [leaves] at status socket listens
      refine ⟨guarded, status, rfl, ?_⟩
      have closes : (Tcp.closeC s.socket).isEmpty = decide (descriptor = 0) := by
        rw [socket, Tcp.closeC_eq]
        by_cases zero : descriptor = 0
        · rw [zero]
          rfl
        · have positive : 0 < (descriptor : Int) := by omega
          rw [decide_eq_false zero]
          exact congrArg List.isEmpty (if_pos positive)
      show (s.listens && (Tcp.closeC s.socket).isEmpty) = _
      rw [listens, closes]
      rfl
  | stops closed =>
      rw [closed] at socket listens
      exact ⟨guarded, rfl, socket, listens⟩
  | clears stopped =>
      rw [stopped] at status socket listens
      exact ⟨guarded, status, socket, listens⟩

/-- A step of `StopServer`: its first line returns, since the status is not `INITED2`. -/
theorem stops (undisturbed : Undisturbed descriptor s) {caller : Int}
    (stepped : s.stopServer caller = some s') : Undisturbed descriptor s' := by
  obtain ⟨guarded, status, socket, listens⟩ := undisturbed
  have notInited : s.workStatus ≠ .inited2 := by
    rw [status]
    split
    · decide
    · decide
  cases here : s.stopPc with
  | idle =>
      rw [stopServer, here] at stepped
      cases stepped
      exact ⟨trivial, status, socket, listens⟩
  | guardRun =>
      rw [stopServer, here] at stepped
      cases stepped
      refine ⟨?_, status, socket, listens⟩
      show (if s.workStatus ≠ .run then StopPc.returned else .guardInited).AtGuard
      split
      · trivial
      · trivial
  | guardInited =>
      simp only [stopServer, here, if_pos notInited] at stepped
      cases stepped
      exact ⟨trivial, status, socket, listens⟩
  | returned =>
      rw [stopServer, here] at stepped
      cases stepped
  | _ =>
      rw [here] at guarded
      cases guarded

end Undisturbed

/-- In every run `StopServer` does not come past its first line, so the status and the
socket are as the loop left them. -/
theorem run_undisturbed {ids : ThreadIds} {descriptor : ℕ}
    {trace : List (Transition ServerTcp ServerEvent ServerMark)} {s : ServerTcp}
    (run : (machine ids).Run (executing ids descriptor) trace s) : Undisturbed descriptor s := by
  have start : Undisturbed descriptor (executing ids descriptor) := ⟨trivial, rfl, rfl, rfl⟩
  refine run.invariant (fun _ s => Undisturbed descriptor s) start ?_
  intro trace s event effect _ undisturbed stepped
  cases event with
  | runs choice => exact undisturbed.runs (runServer_result stepped)
  | stops =>
      obtain ⟨s', called, rfl⟩ := Option.map_eq_some_iff.mp stepped
      exact undisturbed.stops called

/-- `StopServer` does not move the loop. -/
theorem stopServer_runPc {caller : Int} {s s' : ServerTcp}
    (stepped : s.stopServer caller = some s') : s'.runPc = s.runPc := by
  unfold stopServer at stepped
  split at stepped
  all_goals
    cases stepped
    try rfl

/-- A loop that has ended calls nothing back. -/
theorem silent_of_hasEnded {ids : ThreadIds} {s s' : ServerTcp} (ended : s.runPc.hasEnded)
    {more : List (Transition ServerTcp ServerEvent ServerMark)}
    (run : (machine ids).Run s more s') : emissions more = [] := by
  refine (run.invariant (fun more s => s.runPc.hasEnded ∧ emissions more = [])
    ⟨ended, rfl⟩ ?_).2
  rintro more s event effect - ⟨ended, silent⟩ stepped
  rw [emissions_append_singleton, silent, List.nil_append]
  cases event with
  | runs choice =>
      have step := runServer_result stepped
      generalize effect.state = s' at step
      generalize effect.emitted = marks at step
      cases step with
      | serves serves =>
          rw [RunPc.hasEnded_of_hasClosed serves.before] at ended
          cases ended
      | closes leaves =>
          rw [leaves] at ended
          cases ended
      | stops closed =>
          rw [closed] at ended
          cases ended
      | clears stopped => exact ⟨rfl, rfl⟩
  | stops =>
      obtain ⟨s', called, rfl⟩ := Option.map_eq_some_iff.mp stepped
      refine ⟨?_, rfl⟩
      show s'.runPc.hasEnded
      rw [stopServer_runPc called]
      exact ended

/-- While the status says so and `select` does not fail, the loop goes on serving. -/
theorem serving_of_runServer {s : ServerTcp} {choice : RunChoice}
    {effect : Effect ServerTcp ServerMark} (stepped : s.runServer choice = some effect)
    (regular : choice.Regular) (status : s.workStatus = .run) (serving : s.runPc.Serving) :
    effect.state.runPc.Serving := by
  have served : s.serve choice = some effect := by
    unfold runServer at stepped
    split at stepped
    case h_4 => exact stepped
    all_goals
      rename_i here
      rw [here] at serving
      cases serving
  unfold serve at served
  split at served
  case h_1 =>
    rw [if_pos status] at served
    cases served
    trivial
  case h_3 =>
    cases served
    exact Int.le_refl 0
  case h_4 =>
    cases served
    exact (by decide : (0 : Int) ≤ 2)
  case h_5 => exact regular.elim
  case h_6 => exact regular.elim
  case h_8 =>
    cases served
    exact Int.le_refl 0
  case h_13 _ here =>
    rw [here] at serving
    rw [if_neg (Int.not_lt.mpr serving)] at served
    cases served
    trivial
  all_goals
    try split at served
    all_goals
      first
      | cases served; trivial
      | cases served

/-- As long as `select` does not fail, the loop does not end, whatever `StopServer` does. -/
theorem run_serving {ids : ThreadIds} {descriptor : ℕ}
    {trace : List (Transition ServerTcp ServerEvent ServerMark)} {s : ServerTcp}
    (run : (machine ids).Run (executing ids descriptor) trace s)
    (regular : ∀ t ∈ trace, ∀ choice, t.event = .runs choice → choice.Regular) :
    s.runPc.Serving := by
  induction run with
  | nil => trivial
  | @snoc trace s event effect run stepped ih =>
      have serving := ih fun t member => regular t (List.mem_append_left _ member)
      cases event with
      | runs choice =>
          have status := (run_undisturbed run).status
          rw [if_neg (RunPc.not_hasEnded_of_serving serving)] at status
          exact serving_of_runServer stepped
            (regular _ (List.mem_append_right _ (List.mem_singleton_self _)) choice rfl) status
            serving
      | stops =>
          obtain ⟨s', called, rfl⟩ := Option.map_eq_some_iff.mp stepped
          show s'.runPc.Serving
          rw [stopServer_runPc called]
          exact serving

/-- When `StopServer` has returned, the server is stopped, its socket is closed and no connection
accepted from then on reaches the callback exactly if the loop has ended by itself, and its
descriptor is not zero. -/
theorem stopServer_stops_iff (ids : ThreadIds) (descriptor : ℕ)
    {trace : List (Transition ServerTcp ServerEvent ServerMark)} {s : ServerTcp}
    (run : (machine ids).Run (executing ids descriptor) trace s)
    (_returned : s.stopPc = .returned) :
    (s.workStatus = .stopped ∧ s.listens = false ∧
      ∀ more s', (machine ids).Run s more s' →
        ∀ connection, .callback connection ∈ emissions more → connection < s.connections) ↔
    s.runPc.hasEnded ∧ 0 < descriptor := by
  obtain ⟨-, status, -, listens⟩ := run_undisturbed run
  constructor
  · rintro ⟨stopped, closed, -⟩
    have ended : s.runPc.hasEnded := by
      by_contra going
      rw [status, if_neg going] at stopped
      cases stopped
    rw [listens, RunPc.hasClosed_of_hasEnded ended] at closed
    exact ⟨ended, Nat.pos_of_ne_zero (of_decide_eq_false closed)⟩
  · rintro ⟨ended, positive⟩
    refine ⟨?_, ?_, fun more s' run' connection called => ?_⟩
    · rw [status, if_pos ended]
    · rw [listens, RunPc.hasClosed_of_hasEnded ended, decide_eq_false (by omega)]
      rfl
    · rw [silent_of_hasEnded ended run'] at called
      cases called

/-- A loop that runs on thread 1, and a call of `StopServer` on thread 2. -/
def twoThreads : ThreadIds where
  runs := 1
  stops := 2
  different := by decide

/-- `select` fails and the loop ends; only then `StopServer` is called. -/
def stopAfterEnd : List ServerEvent :=
  [.runs .proceed, .runs .proceed, .runs .selectFailed, .runs .proceed, .runs .proceed,
    .runs .proceed, .stops, .stops]

/-- The call of `StopServer` that finds the loop ended: nothing listens any more, and no
later connection reaches the callback. -/
theorem stopServer_stops_iff_stopAfterEnd :
    ∃ trace s, (machine twoThreads).Run (executing twoThreads 5) trace s ∧ s.stopPc = .returned ∧
      s.workStatus = .stopped ∧ s.listens = false ∧
      ∀ more s', (machine twoThreads).Run s more s' →
        ∀ connection, .callback connection ∈ emissions more → connection < s.connections := by
  have run := run_traceOf (machine twoThreads) (executing twoThreads 5) stopAfterEnd (by decide)
  exact ⟨_, _, run, by decide,
    (stopServer_stops_iff twoThreads 5 run (by decide)).mpr ⟨by decide, by decide⟩⟩

/-- `StopServer` returns while the loop runs. -/
def stopWhileRunning : List ServerEvent :=
  [.stops, .stops, .stops]

/-- The next client. -/
def serveNext : List ServerEvent :=
  [.runs .proceed, .runs .proceed, .runs .ready, .runs (.client 9), .runs .proceed]

/-- `StopServer` has returned, the status is still `RUN`, the socket still listens, and the first
client that connects after that reaches the callback. -/
theorem serves_after_stopServer :
    ∃ trace s, (machine twoThreads).Run (executing twoThreads 5) trace s ∧ s.stopPc = .returned ∧
      s.workStatus = .run ∧ s.listens = true ∧ s.connections = 0 ∧
      ∃ more s', (machine twoThreads).Run s more s' ∧
        emissions more = [.accepted 0, .callback 0] := by
  have run := run_traceOf (machine twoThreads) (executing twoThreads 5) stopWhileRunning (by decide)
  refine ⟨_, _, run, by decide, by decide, by decide, by decide, _, _,
    run_traceOf (machine twoThreads) _ serveNext (by decide), by decide⟩

end ServerTcp

end Common

end CppRaft
