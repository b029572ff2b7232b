import Mathlib.Data.Fintype.Basic
import CppRaft.Machine.Handles
import CppRaft.Machine.Trace
import CppRaft.Tcp.Sockets

/-!
# Who closes a descriptor

A running server gets descriptors from `accept`, from the connections that `NodeTools::writeC`
makes, and from `CreateEmptySocket`. They go from the queue of the workers to a worker and from
there into the tools of a node, and the receiving threads have one each, by which they are
interrupted.

A call on a socket object is several steps: it tests `m_socket`, closes it and assigns to it, and
`InterruptReceivercThread` does so with `m_intrptSocketForRcv`. No lock keeps two threads apart
that do this to one object: a receiving thread whose read fails, a worker that gets a connection
from the same node and a thread that writes to it all have the shared lock.

A descriptor that is refused at an index, or taken out of the queue after `StopServer`, is left to
nobody, and the descriptor zero is not closed. Every other open descriptor is in exactly one
place, as long as no two threads are in such calls on one object at once.

A descriptor below zero is none.
-/

namespace CppRaft

namespace Tcp

open Machine

/-- The variables that have a descriptor: the socket of the connection that a worker handles, the
sockets of the nodes, `m_intrptSocketForRcv`, and the local variables of
`InterruptReceivercThread`. -/
inductive SocketVariable (Thread Node : Type) where
  | clientSock (worker : Thread)
  | socket (node : Node) (type : SocketType)
  | intrptSocketForRcv (type : SocketType)
  | socketForInfoOld (thread : Thread)
  | socketForInfoNew (thread : Thread)
  deriving DecidableEq

/-- The lists of descriptors: the queue of the workers, and what is left to nobody. -/
inductive DescriptorList where
  | queue
  | nobody
  deriving DecidableEq

namespace SocketCall

variable {V : Type}

/-- `m_socket > 0`. -/
def isPositive (socket : Option ℕ) : Bool :=
  socket.any fun descriptor => decide (0 < descriptor)

/-- `SocketBase::closeHard`. -/
def closeHard (socket : V) (next : Program V ℕ) : Program V ℕ :=
  .test socket isPositive (.close socket (.reset socket next)) (.reset socket next)

/-- `SocketBase::closeC`, of a socket without clones: `IODevice::closeC`, which tests `isOpenC`, and
`m_socket = -1`. -/
def closeC (socket : V) (next : Program V ℕ) : Program V ℕ :=
  .test socket Option.isSome (closeHard socket (.reset socket next)) (.reset socket next)

/-- `NodeTools::setSocket`, which calls `closeC` and `SetNewSocketDescriptor`, and
`ResetSocketWithoutClose` of the socket that the descriptor comes from. -/
def setSocket (socket clientSock : V) : Program V ℕ :=
  closeC socket (closeC socket (.copy clientSock socket (.reset clientSock .done)))

/-- `NodeTools::writeC` up to the new descriptor that `connectC` gets. -/
def connect (socket : V) : Program V ℕ :=
  .test socket Option.isSome .done (closeHard socket (.create socket .done))

/-- The destructor of `NodeTools`. -/
def destroy (data1 raft : V) : Program V ℕ :=
  closeC data1 (closeC raft .done)

/-- `InterruptReceivercThread`. -/
def interruptReceivercThread (receiver old new : V) : Program V ℕ :=
  .test receiver isPositive
    (.copy receiver old (.create new (.copy new receiver
      (.close old (.reset old (.reset new .done))))))
    .done

/-- `StopServer` closes the descriptor of a receiving thread. -/
def closeReceiver (receiver : V) : Program V ℕ :=
  .close receiver (.reset receiver .done)

end SocketCall

/-- The descriptors, `m_nWork`, the nodes of the server, and the calls that its threads are in. -/
structure Descriptors (Thread Node : Type) where
  handles : Handles (SocketVariable Thread Node) DescriptorList ℕ
  work : Bool
  nodes : Node → Bool
  task : Thread → Option (Task (SocketVariable Thread Node) ℕ)

/-- A thread begins a call or goes on in the one that it is in, with the descriptor that the system
returns if it opens one. -/
inductive DescriptorEvent (Thread Node : Type) where
  | addClient (descriptor : ℕ)
  | extract (worker : Thread)
  | leave (worker : Thread)
  | addNode (node : Node)
  | setSocket (worker : Thread) (node : Node) (index : Int)
  | closeNode (thread : Thread) (node : Node) (type : SocketType)
  | connect (thread : Thread) (node : Node) (type : SocketType)
  | removeNode (thread : Thread) (node : Node)
  | interrupt (thread : Thread) (type : SocketType)
  | closeReceiver (thread : Thread) (type : SocketType)
  | clearWork
  | goOn (thread : Thread) (new : Option ℕ)

namespace Descriptors

variable {Thread Node : Type} [DecidableEq Thread] [DecidableEq Node]

/-- A thread that is in no call begins one, which uses these variables. -/
def start (thread : Thread) (cells : List (SocketVariable Thread Node))
    (program : Program (SocketVariable Thread Node) ℕ) (s : Descriptors Thread Node) :
    Option (Effect (Descriptors Thread Node) ℕ) :=
  if (s.task thread).isNone then
    some (.done { s with task := Function.update s.task thread (some ⟨cells, program⟩) })
  else none

/-- `AddClient`. -/
def addClient (descriptor : ℕ) (s : Descriptors Thread Node) :
    Option (Effect (Descriptors Thread Node) ℕ) :=
  if s.handles.isOpen descriptor then none
  else some (.done { s with handles := (s.handles.opened descriptor).push .queue descriptor })

/-- A worker extracts a connection, and goes on with it if `m_nWork` is still set. -/
def extract (worker : Thread) (s : Descriptors Thread Node) :
    Option (Effect (Descriptors Thread Node) ℕ) :=
  match s.handles.bags .queue with
  | [] => none
  | descriptor :: _ =>
      if (s.task worker).isSome ∨ (s.handles.value (.clientSock worker)).isSome then none
      else if s.work then
        some (.done { s with
          handles := (s.handles.pop .queue).put (.clientSock worker) (some descriptor) })
      else some (.done { s with handles := (s.handles.pop .queue).push .nobody descriptor })

/-- `setSocket` with the descriptor of a worker: the end of
`raft_connect_toAnyNode_permanentBridge`, and with the index of the raft socket that of
`handleNewConnectionAfterLock`. At a wrong index the descriptor is only taken from the worker. -/
def setSocket (worker : Thread) (node : Node) (index : Int) (s : Descriptors Thread Node) :
    Option (Effect (Descriptors Thread Node) ℕ) :=
  match s.handles.value (.clientSock worker) with
  | none => none
  | some descriptor =>
      if ¬s.nodes node ∨ (s.task worker).isSome then none
      else if ¬validateIndexInvalid index then
        some (.done { s with
          handles := (s.handles.put (.clientSock worker) none).push .nobody descriptor })
      else
        match SocketType.at? index with
        | none => none
        | some type =>
            s.start worker [.socket node type, .clientSock worker]
              (SocketCall.setSocket (.socket node type) (.clientSock worker))

/-- A thread begins a call on a socket of a node of the server. -/
def startAt (thread : Thread) (node : Node) (cells : List (SocketVariable Thread Node))
    (program : Program (SocketVariable Thread Node) ℕ) (s : Descriptors Thread Node) :
    Option (Effect (Descriptors Thread Node) ℕ) :=
  if s.nodes node then s.start thread cells program else none

/-- `CleanNodeData` of a node that has been removed from the table. -/
def removeNode (thread : Thread) (node : Node) (s : Descriptors Thread Node) :
    Option (Effect (Descriptors Thread Node) ℕ) :=
  if s.nodes node then
    { s with nodes := Function.update s.nodes node false }.start thread
      [.socket node .data1, .socket node .raft]
      (SocketCall.destroy (.socket node .data1) (.socket node .raft))
  else none

/-- The next statement of the call that a thread is in, or the end of the call. -/
def goOn (thread : Thread) (new : Option ℕ) (s : Descriptors Thread Node) :
    Option (Effect (Descriptors Thread Node) ℕ) :=
  match s.task thread with
  | none => none
  | some t =>
      if t.program.isDone then
        some (.done { s with task := Function.update s.task thread none })
      else
        (t.program.step new s.handles).map fun (rest, effect) =>
          ⟨{ s with
              handles := effect.state
              task := Function.update s.task thread (some ⟨t.cells, rest⟩) },
            effect.emitted⟩

/-- The threads of a server as a machine that emits the descriptors it closes. -/
def machine : Machine (Descriptors Thread Node) (DescriptorEvent Thread Node) ℕ where
  step := fun s event =>
    match event with
    | .addClient descriptor => s.addClient descriptor
    | .extract worker => s.extract worker
    | .leave worker =>
        s.start worker [.clientSock worker] (SocketCall.closeC (.clientSock worker) .done)
    | .addNode node => some (.done { s with nodes := Function.update s.nodes node true })
    | .setSocket worker node index => s.setSocket worker node index
    | .closeNode thread node type =>
        s.startAt thread node [.socket node type] (SocketCall.closeC (.socket node type) .done)
    | .connect thread node type =>
        s.startAt thread node [.socket node type] (SocketCall.connect (.socket node type))
    | .removeNode thread node => s.removeNode thread node
    | .interrupt thread type =>
        s.start thread [.intrptSocketForRcv type, .socketForInfoOld thread,
            .socketForInfoNew thread]
          (SocketCall.interruptReceivercThread (.intrptSocketForRcv type)
            (.socketForInfoOld thread) (.socketForInfoNew thread))
    | .closeReceiver thread type =>
        s.start thread [.intrptSocketForRcv type]
          (SocketCall.closeReceiver (.intrptSocketForRcv type))
    | .clearWork => some (.done { s with work := false })
    | .goOn thread new => s.goOn thread new

/-- One step of a run. -/
abbrev Step (Thread Node : Type) : Type :=
  Transition (Descriptors Thread Node) (DescriptorEvent Thread Node) ℕ

end Descriptors

/-- The variables that a call uses which is to begin. -/
def DescriptorEvent.cells {Thread Node : Type} :
    DescriptorEvent Thread Node → List (SocketVariable Thread Node)
  | .extract worker => [.clientSock worker]
  | .leave worker => [.clientSock worker]
  | .setSocket worker node index =>
      ((SocketType.at? index).map (SocketVariable.socket node)).toList ++ [.clientSock worker]
  | .closeNode _ node type => [.socket node type]
  | .connect _ node type => [.socket node type]
  | .addNode node => [.socket node .data1, .socket node .raft]
  | .removeNode _ node => [.socket node .data1, .socket node .raft]
  | .interrupt thread type =>
      [.intrptSocketForRcv type, .socketForInfoOld thread, .socketForInfoNew thread]
  | .closeReceiver _ type => [.intrptSocketForRcv type]
  | _ => []

namespace Descriptors

variable {Thread Node : Type}

/-- The call that begins is on no object that another thread is in a call on. -/
def Apart (s : Descriptors Thread Node) (event : DescriptorEvent Thread Node) : Prop :=
  Unused s.task event.cells

/-- The local variables of a call are empty when it has ended, and the descriptor zero is not
closed. -/
def usage : Usage (SocketVariable Thread Node) ℕ where
  temporary
    | .socketForInfoOld _ => True
    | .socketForInfoNew _ => True
    | _ => False
  waste := fun descriptor => descriptor = 0

section Safe

variable [DecidableEq Thread] [DecidableEq Node] {cells : List (SocketVariable Thread Node)}
  {socket : SocketVariable Thread Node} {next : Program (SocketVariable Thread Node) ℕ}
  {value : SocketVariable Thread Node → Option ℕ} {spent : SocketVariable Thread Node → Bool}

omit [DecidableEq Thread] [DecidableEq Node] in
/-- A variable that owns nothing may be overwritten. -/
theorem replaceable_of_none (empty : value socket = none) :
    Replaceable usage value spent socket := by
  intro descriptor _ has
  cases empty.symm.trans has

omit [DecidableEq Thread] [DecidableEq Node] in
/-- So may one whose descriptor has been closed. -/
theorem replaceable_of_spent (isSpent : spent socket = true) :
    Replaceable usage value spent socket := by
  intro descriptor unspent
  cases isSpent.symm.trans unspent

/-- A variable that is not spent can be declared so. -/
theorem update_false (unspent : spent socket = false) :
    Function.update spent socket false = spent := by
  rw [← unspent, Function.update_eq_self]

/-- After `closeHard` the socket has no descriptor, and only zero can have been lost. -/
theorem safe_closeHard (inside : socket ∈ cells) (unspent : spent socket = false)
    (after : next.Safe usage cells (Function.update value socket none) spent) :
    (SocketCall.closeHard socket next).Safe usage cells value spent := by
  refine ⟨inside, ?_⟩
  by_cases positive : SocketCall.isPositive (value socket) = true
  · rw [if_pos positive]
    refine ⟨inside, Or.inr unspent, inside, replaceable_of_spent (Function.update_self ..), ?_⟩
    rwa [Function.update_idem, update_false unspent]
  · rw [if_neg positive]
    refine ⟨inside, fun descriptor _ has => ?_, ?_⟩
    · have zero : descriptor = 0 := by simpa [SocketCall.isPositive, has] using positive
      exact zero
    · rwa [update_false unspent]

/-- So it is after `closeC`. -/
theorem safe_closeC (inside : socket ∈ cells) (unspent : spent socket = false)
    (after : next.Safe usage cells (Function.update value socket none) spent) :
    (SocketCall.closeC socket next).Safe usage cells value spent := by
  refine ⟨inside, ?_⟩
  by_cases isOpen : (value socket).isSome = true
  · rw [if_pos isOpen]
    refine safe_closeHard inside unspent
      ⟨inside, replaceable_of_none (Function.update_self ..), ?_⟩
    rwa [Function.update_idem, update_false unspent]
  · rw [if_neg isOpen]
    refine ⟨inside, replaceable_of_none (Option.not_isSome_iff_eq_none.mp isOpen), ?_⟩
    rwa [update_false unspent]

section Rested

variable {thread : Thread} {node : Node} {type : SocketType}

/-- `closeC` of a socket that is not a local variable. -/
theorem safe_closeC_done
    (lasting : ¬(usage : Usage (SocketVariable Thread Node) ℕ).temporary socket)
    (rested : ∀ cell ∈ [socket], Rested usage value spent cell) :
    (SocketCall.closeC socket .done).Safe usage [socket] value spent := by
  have unspent := (rested socket List.mem_cons_self).1
  refine safe_closeC List.mem_cons_self unspent fun cell member => ?_
  rw [List.mem_singleton.mp member]
  exact ⟨unspent, fun temporary => absurd temporary lasting⟩

/-- `setSocket` closes what the socket of the node had before it takes the descriptor of the
client, and the client gives it up in the last statement. -/
theorem safe_setSocket
    (rested : ∀ cell ∈ [.socket node type, .clientSock thread], Rested usage value spent cell) :
    (SocketCall.setSocket (.socket node type) (.clientSock thread)).Safe usage
      [.socket node type, .clientSock thread] value spent := by
  have unspent := (rested (.socket node type) (by simp)).1
  have unspent' := (rested (.clientSock thread) (by simp)).1
  refine safe_closeC (by simp) unspent (safe_closeC (by simp) unspent ?_)
  refine ⟨⟨by simp, by simp, by simp⟩, replaceable_of_none (by simp), by simp,
    replaceable_of_spent (by simp), fun cell member => ?_⟩
  rcases List.mem_pair.mp member with rfl | rfl
  · exact ⟨by simp [unspent'], False.elim⟩
  · exact ⟨by simp, False.elim⟩

/-- `writeC` opens a descriptor into a socket that it has found empty. -/
theorem safe_connect (rested : ∀ cell ∈ [.socket node type], Rested usage value spent cell) :
    (SocketCall.connect (.socket node type)).Safe usage
      [(.socket node type : SocketVariable Thread Node)] value spent := by
  have unspent := (rested (.socket node type) (by simp)).1
  refine ⟨by simp, ?_⟩
  split
  · exact rested
  · refine safe_closeHard (by simp) unspent
      ⟨by simp, replaceable_of_none (by simp), fun new cell member => ?_⟩
    rw [List.mem_singleton.mp member]
    exact ⟨by simp, False.elim⟩

/-- The destructor of the tools of a node closes both sockets. -/
theorem safe_destroy
    (rested : ∀ cell ∈ [.socket node .data1, .socket node .raft], Rested usage value spent cell) :
    (SocketCall.destroy (.socket node .data1) (.socket node .raft)).Safe usage
      [(.socket node .data1 : SocketVariable Thread Node), .socket node .raft] value spent := by
  have unspent := (rested (.socket node .data1) (by simp)).1
  have unspent' := (rested (.socket node .raft) (by simp)).1
  refine safe_closeC (by simp) unspent (safe_closeC (by simp) unspent' fun cell member => ?_)
  rcases List.mem_pair.mp member with rfl | rfl
  · exact ⟨unspent, False.elim⟩
  · exact ⟨unspent', False.elim⟩

/-- `InterruptReceivercThread` keeps the old descriptor in a local variable while the new
one is put in its place, and closes the old one last. -/
theorem safe_interrupt
    (rested : ∀ cell ∈ [.intrptSocketForRcv type, .socketForInfoOld thread,
      .socketForInfoNew thread], Rested usage value spent cell) :
    (SocketCall.interruptReceivercThread (.intrptSocketForRcv type) (.socketForInfoOld thread)
      (.socketForInfoNew thread)).Safe usage
        [(.intrptSocketForRcv type : SocketVariable Thread Node), .socketForInfoOld thread,
          .socketForInfoNew thread] value spent := by
  obtain ⟨unspent, -⟩ := rested (.intrptSocketForRcv type) (by simp)
  obtain ⟨-, oldEmpty⟩ := rested (.socketForInfoOld thread) (by simp)
  obtain ⟨-, newEmpty⟩ := rested (.socketForInfoNew thread) (by simp)
  refine ⟨by simp, ?_⟩
  split
  · -- The old descriptor is copied, a new one is created and stored, and the old one is closed.
    refine ⟨⟨by simp, by simp, by simp⟩, replaceable_of_none (oldEmpty trivial), by simp,
      replaceable_of_none ?_, fun new => ⟨⟨by simp, by simp, by simp⟩, replaceable_of_spent ?_,
        by simp, Or.inr ?_, by simp, replaceable_of_spent ?_, by simp, replaceable_of_spent ?_,
        fun cell member => ?_⟩⟩
    · simpa using newEmpty trivial
    · simp
    · simp [unspent]
    · simp
    · simp
    · simp only [List.mem_cons, List.not_mem_nil, or_false] at member
      rcases member with rfl | rfl | rfl
      · exact ⟨by simp, False.elim⟩
      · exact ⟨by simp, fun _ => by simp⟩
      · exact ⟨by simp, fun _ => by simp⟩
  · exact rested

/-- `StopServer` closes the descriptor of a receiving thread and then forgets it. -/
theorem safe_closeReceiver
    (rested : ∀ cell ∈ [.intrptSocketForRcv type], Rested usage value spent cell) :
    (SocketCall.closeReceiver (.intrptSocketForRcv type)).Safe usage
      [(.intrptSocketForRcv type : SocketVariable Thread Node)] value spent := by
  have unspent := (rested (.intrptSocketForRcv type) (by simp)).1
  refine ⟨by simp, Or.inr unspent, by simp, replaceable_of_spent (by simp), fun cell member => ?_⟩
  rw [List.mem_singleton.mp member]
  exact ⟨by simp, False.elim⟩

end Rested

end Safe

section Step

variable [DecidableEq Thread] [DecidableEq Node] {s : Descriptors Thread Node} {thread : Thread}
  {effect : Effect (Descriptors Thread Node) ℕ}

/-- The calls keep the descriptors, and a step closes open ones only. -/
structure Keeps (s : Descriptors Thread Node) (effect : Effect (Descriptors Thread Node) ℕ) :
    Prop where
  sound : Sound usage effect.state.handles effect.state.task
  closes : ∀ descriptor ∈ effect.emitted, s.handles.isOpen descriptor = true

/-- A call begins. -/
theorem keeps_start {cells : List (SocketVariable Thread Node)}
    {program : Program (SocketVariable Thread Node) ℕ}
    (sound : Sound usage s.handles s.task) (unused : Unused s.task cells)
    (safe : (∀ cell ∈ cells, Rested usage s.handles.value s.handles.spent cell) →
      program.Safe usage cells s.handles.value s.handles.spent)
    (stepped : s.start thread cells program = some effect) : s.Keeps effect := by
  obtain ⟨free, ⟨⟩⟩ := Option.ite_none_right_eq_some.mp stepped
  refine ⟨sound.start (Option.isNone_iff_eq_none.mp free) unused ?_, nofun⟩
  exact safe (sound.rested unused)

/-- Something happens to the lists only. -/
theorem Keeps.lists {handles : Handles (SocketVariable Thread Node) DescriptorList ℕ}
    (sound : Sound usage s.handles s.task) (kept : handles.Kept)
    (leaked : handles.leaked = s.handles.leaked) (value : handles.value = s.handles.value)
    (spent : handles.spent = s.handles.spent) : s.Keeps (.done { s with handles := handles }) := by
  have unused : Unused s.task [] := fun _ _ _ _ absurdity => nomatch absurdity
  exact ⟨sound.elsewhere unused nofun kept leaked (fun cell _ => congrFun value cell) spent, nofun⟩

/-- Something happens to the socket of a worker that is in no call, and to the lists. -/
theorem Keeps.clientSock {worker : Thread}
    {handles : Handles (SocketVariable Thread Node) DescriptorList ℕ}
    (sound : Sound usage s.handles s.task) (unused : Unused s.task [.clientSock worker])
    (kept : handles.Kept) (leaked : handles.leaked = s.handles.leaked) {connection : Option ℕ}
    (value : handles.value = Function.update s.handles.value (.clientSock worker) connection)
    (spent : handles.spent = s.handles.spent) : s.Keeps (.done { s with handles := handles }) := by
  refine ⟨sound.elsewhere unused ?_ kept leaked (fun cell outside => ?_) spent, nofun⟩
  · intro cell member
    rw [List.mem_singleton.mp member]
    nofun
  · refine (congrFun value cell).trans (Function.update_of_ne ?_ _ _)
    exact fun same => outside (List.mem_singleton.mpr same)

/-- A worker takes a connection out of the queue: the queue gives up the descriptor and the
variable of the worker gets it. -/
theorem keeps_extract {worker : Thread} (sound : Sound usage s.handles s.task)
    (unused : Unused s.task [.clientSock worker]) (stepped : s.extract worker = some effect) :
    s.Keeps effect := by
  unfold extract at stepped
  split at stepped
  · cases stepped
  · rename_i descriptor rest front
    obtain ⟨free, stepped⟩ := Option.ite_none_left_eq_some.mp stepped
    obtain ⟨-, empty⟩ := not_or.mp free
    have unspent := (sound.rested unused (.clientSock worker) List.mem_cons_self).1
    split at stepped
    · cases stepped
      exact .clientSock sound unused (sound.kept.collect front unspent
        (Option.not_isSome_iff_eq_none.mp empty)) rfl rfl rfl
    · cases stepped
      exact .lists sound (sound.kept.pass front nofun) rfl rfl rfl

/-- A worker hands its connection on. With a wrong index the descriptor is taken from the
worker and given to nobody. -/
theorem keeps_setSocket {worker : Thread} {node : Node} {index : Int}
    (sound : Sound usage s.handles s.task)
    (apart : s.Apart (.setSocket worker node index))
    (stepped : s.setSocket worker node index = some effect) : s.Keeps effect := by
  have unused : Unused s.task [.clientSock worker] := fun thread t runs cell member =>
    apart thread t runs cell (List.mem_append_right _ member)
  unfold setSocket at stepped
  split at stepped
  · cases stepped
  · rename_i descriptor has
    obtain ⟨-, stepped⟩ := Option.ite_none_left_eq_some.mp stepped
    split at stepped
    · cases stepped
      have unspent := (sound.rested unused (.clientSock worker) List.mem_cons_self).1
      exact .clientSock sound unused (sound.kept.discard unspent has) rfl rfl rfl
    · split at stepped
      · cases stepped
      · rename_i type found
        rw [Apart, DescriptorEvent.cells, found] at apart
        exact keeps_start sound apart safe_setSocket stepped

/-- A call goes on. -/
theorem keeps_goOn {new : Option ℕ} (sound : Sound usage s.handles s.task)
    (stepped : s.goOn thread new = some effect) : s.Keeps effect := by
  unfold goOn at stepped
  split at stepped
  · cases stepped
  · rename_i t runs
    split at stepped
    · cases stepped
      exact ⟨sound.finish runs ‹_›, nofun⟩
    · obtain ⟨⟨rest, handles⟩, taken, rfl⟩ := Option.map_eq_some_iff.mp stepped
      obtain ⟨after, closes⟩ := sound.step runs taken
      exact ⟨after, closes⟩

/-- Every step that keeps apart from the others keeps the descriptors. A call begins with
variables that no other call uses, and each of its statements is safe by the lemmas above. -/
theorem keeps_step {event : DescriptorEvent Thread Node} (sound : Sound usage s.handles s.task)
    (apart : s.Apart event) (stepped : machine.step s event = some effect) : s.Keeps effect := by
  cases event with
  | addClient descriptor =>
      obtain ⟨unused, ⟨⟩⟩ := Option.ite_none_left_eq_some.mp stepped
      exact .lists sound (sound.kept.deliver (Bool.eq_false_iff.mpr unused)) rfl rfl rfl
  | extract worker => exact keeps_extract sound apart stepped
  | leave worker => exact keeps_start sound apart (safe_closeC_done nofun) stepped
  | addNode node =>
      cases stepped
      exact ⟨sound, nofun⟩
  | setSocket worker node index => exact keeps_setSocket sound apart stepped
  | closeNode thread node type =>
      obtain ⟨-, stepped⟩ := Option.ite_none_right_eq_some.mp stepped
      exact keeps_start sound apart (safe_closeC_done nofun) stepped
  | connect thread node type =>
      obtain ⟨-, stepped⟩ := Option.ite_none_right_eq_some.mp stepped
      exact keeps_start sound apart safe_connect stepped
  | removeNode thread node =>
      obtain ⟨-, stepped⟩ := Option.ite_none_right_eq_some.mp stepped
      have begun := keeps_start (s := { s with nodes := Function.update s.nodes node false })
        sound apart safe_destroy stepped
      exact ⟨begun.sound, begun.closes⟩
  | interrupt thread type => exact keeps_start sound apart safe_interrupt stepped
  | closeReceiver thread type => exact keeps_start sound apart safe_closeReceiver stepped
  | clearWork =>
      cases stepped
      exact ⟨sound, nofun⟩
  | goOn thread new => exact keeps_goOn sound stepped

end Step

end Descriptors

/-- What a server has when its threads start: its nodes, the connection through which it has
joined, if it has, and the descriptors of the receiving threads. -/
structure Opening (Node : Type) where
  nodes : Node → Bool
  connection : Option (Node × ℕ)
  intrptSocketForRcv : SocketType → Option ℕ
  distinct : ∀ type other descriptor, intrptSocketForRcv type = some descriptor →
    intrptSocketForRcv other = some descriptor → type = other
  connected : ∀ node descriptor type, connection = some (node, descriptor) →
    intrptSocketForRcv type ≠ some descriptor

namespace Opening

variable {Thread Node : Type} [DecidableEq Node]

/-- The raft socket of the node through which the server has joined has the connection. -/
def value (b : Opening Node) : SocketVariable Thread Node → Option ℕ
  | .socket node .raft =>
      b.connection.bind fun found => if found.1 = node then some found.2 else none
  | .intrptSocketForRcv type => b.intrptSocketForRcv type
  | _ => none

/-- The descriptors that are open. -/
def isOpen (b : Opening Node) (descriptor : ℕ) : Bool :=
  b.connection.any (fun found => decide (found.2 = descriptor)) ||
    decide (b.intrptSocketForRcv .raft = some descriptor) ||
    decide (b.intrptSocketForRcv .data1 = some descriptor)

/-- `RunAllThreadPrivate` after `FindClusterAndInit`. -/
def start (b : Opening Node) : Descriptors Thread Node where
  handles := ⟨b.isOpen, b.value, fun _ => false, fun _ => [], []⟩
  work := true
  nodes := b.nodes
  task := fun _ => none

/-- A variable has a descriptor at the start because it is that of the connection to the
adder or of a receiving thread. -/
theorem value_eq_some (b : Opening Node) {cell : SocketVariable Thread Node} {descriptor : ℕ} :
    b.value cell = some descriptor ↔
      (∃ node, cell = .socket node .raft ∧ b.connection = some (node, descriptor)) ∨
        ∃ type, cell = .intrptSocketForRcv type ∧ b.intrptSocketForRcv type = some descriptor := by
  cases cell with
  | socket node type =>
      cases type with
      | raft =>
          cases joined : b.connection with
          | none => simp [value, joined]
          | some found =>
              obtain ⟨adder, accepted⟩ := found
              by_cases same : adder = node
              · simp [value, joined, same]
              · simp [value, joined, same]
      | data1 => simp [value]
  | intrptSocketForRcv type => simp [value]
  | _ => simp [value]

/-- At the start every descriptor that is open is in a variable. -/
theorem kept_start (b : Opening Node) :
    (b.start : Descriptors Thread Node).handles.Kept := by
  apply Handles.kept_of_injective
  · intro cell other descriptor first second
    rcases b.value_eq_some.mp first with ⟨node, rfl, joined⟩ | ⟨type, rfl, has⟩ <;>
      rcases b.value_eq_some.mp second with ⟨node', rfl, joined'⟩ | ⟨type', rfl, has'⟩
    · cases joined.symm.trans joined'
      rfl
    · exact absurd has' (b.connected node descriptor type' joined)
    · exact absurd has (b.connected node' descriptor type joined')
    · rw [b.distinct type type' descriptor has has']
  · intro descriptor
    simp only [b.value_eq_some, isOpen, Bool.or_eq_true, decide_eq_true_eq, Option.any_eq_true]
    constructor
    · rintro ((⟨⟨node, _⟩, joined, rfl⟩ | has) | has)
      · exact ⟨_, Or.inl ⟨node, rfl, joined⟩⟩
      · exact ⟨_, Or.inr ⟨.raft, rfl, has⟩⟩
      · exact ⟨_, Or.inr ⟨.data1, rfl, has⟩⟩
    · rintro ⟨_, ⟨node, -, joined⟩ | ⟨type, -, has⟩⟩
      · exact Or.inl (Or.inl ⟨(node, descriptor), joined, rfl⟩)
      · cases type with
        | raft => exact Or.inl (Or.inr has)
        | data1 => exact Or.inr has

/-- A server that has joined starts with each descriptor owned once and no thread in a call. -/
theorem sound_start (b : Opening Node) [DecidableEq Thread] :
    Sound Descriptors.usage (b.start : Descriptors Thread Node).handles b.start.task := by
  refine ⟨b.kept_start, nofun, nofun, nofun, fun cell _ => ⟨rfl, fun temporary => ?_⟩⟩
  cases cell with
  | socketForInfoOld thread => rfl
  | socketForInfoNew thread => rfl
  | _ => exact temporary.elim

end Opening

namespace Descriptors

variable {Thread Node : Type} [DecidableEq Thread] [DecidableEq Node]

end Descriptors

/-- A server that has joined through a node. -/
def Opening.joined {Node : Type} (adder : Node) : Opening Node where
  nodes := fun _ => true
  connection := some (adder, 3)
  intrptSocketForRcv
    | .raft => some 4
    | .data1 => some 5
  distinct := by
    rintro (_ | _) (_ | _) descriptor ⟨⟩ same <;> cases same <;> rfl
  connected := by
    rintro node descriptor (_ | _) ⟨⟩ same <;> cases same

namespace Descriptors

instance {Thread Node : Type} [Fintype Thread] [DecidableEq Thread] [DecidableEq Node]
    (s : Descriptors Thread Node) (event : DescriptorEvent Thread Node) :
    Decidable (s.Apart event) :=
  decidable_of_iff (∀ thread, ∀ t ∈ (s.task thread).toList, ∀ cell ∈ event.cells, cell ∉ t.cells)
    (by simp [Apart, Unused])

/-- A thread takes some steps of the call that it is in. -/
def goesOn {Thread Node : Type} (thread : Thread) (steps : ℕ) :
    List (DescriptorEvent Thread Node) :=
  List.replicate steps (.goOn thread none)

/-- A worker makes an accepted connection the data socket of a node and interrupts the receiving
thread; the connection breaks, and its descriptor is used again. -/
def bridged {Thread Node : Type} (worker : Thread) (node : Node) :
    List (DescriptorEvent Thread Node) :=
  [.addClient 6, .extract worker, .setSocket worker node 1] ++ goesOn worker 7 ++
    [.interrupt worker .data1] ++ goesOn worker 2 ++ [.goOn worker (some 7)] ++ goesOn worker 5 ++
    [.closeNode worker node .data1] ++ goesOn worker 6 ++ [.addClient 6]

/-- Two threads close the socket of a node at once. The second closes a connection that was
accepted in the meantime and waits for a worker. -/
example :
    let events : List (DescriptorEvent Bool Bool) :=
      [.closeNode false false .raft, .closeNode true false .raft] ++ goesOn false 2 ++
        goesOn true 2 ++ goesOn false 1 ++ [.addClient 3] ++ goesOn true 1
    let s := machine.stateOf (Opening.joined false).start events
    emissions (machine.traceOf (Opening.joined false).start events) = [3, 3] ∧
      s.handles.bags .queue = [3] ∧ s.handles.isOpen 3 = false := by
  decide

/-- Two threads interrupt a receiving thread at once. The second gets the descriptor that the
first has closed, stores it, and closes it; nobody has the one that the first has stored. -/
example :
    let events : List (DescriptorEvent Bool Bool) :=
      [.interrupt false .raft, .interrupt true .raft] ++ goesOn false 2 ++ goesOn true 2 ++
        [.goOn false (some 7)] ++ goesOn false 2 ++ [.goOn true (some 4)] ++ goesOn true 2
    let s := machine.stateOf (Opening.joined false).start events
    emissions (machine.traceOf (Opening.joined false).start events) = [4, 4] ∧
      s.handles.value (.intrptSocketForRcv .raft) = some 4 ∧ s.handles.isOpen 4 = false ∧
      s.handles.isOpen 7 = true := by
  decide

end Descriptors

end Tcp

end CppRaft
