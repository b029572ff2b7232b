import CppRaft.Machine.Feed
import CppRaft.Tcp.Address
import CppRaft.Tcp.JoinRace
import CppRaft.Tcp.Takeover

/-!
# The node tables under one leader

All nodes join through the leader, the leader alone removes nodes, each server has one
worker, and all machines have one byte order. The leader's worker treats one job at a
time, each in its parts: the part before the exclusive lock, the locked part and the
broadcast. What the leader broadcasts reaches a server through one socket, in order; the
receiving thread reads a frame and leaves a job to the worker.

A frame may not go out at all, and the next one then makes a new connection: the server
has missed one change and goes on. The same happens to frames that were not read when
the connection was replaced. A frame that goes out in part, or that the receiving thread
rejects before it has read all of it, leaves the thread in the middle of a frame; from
then on the server may take any bytes for a change.

The leader announces a removal by a key that it builds again from the text of the address,
and a new node builds its own key. These are the keys by which the other servers know the
node only if no other bytes stand behind the text.
-/

namespace CppRaft

namespace Tcp

open Machine

/-- A change of the members, as the leader broadcasts it. -/
inductive Change (Key : Type) where
  | newNode (node : Key)
  | removeNode (node : Key)
  deriving DecidableEq

/-- `RemoveNode1` on the keys of a table. -/
def removeKey {Key : Type} [DecidableEq Key] (key : Key) (keys : List Key) : List Key :=
  keys.filter fun other => decide (other ≠ key)

/-- What a worker does to the keys of the table for a change. -/
def Change.apply {Key : Type} [DecidableEq Key] (keys : List Key) : Change Key → List Key
  | newNode node => addKey node keys
  | removeNode node => removeKey node keys

/-- The keys that servers build for a node that is in the leader's table by another: the leader
for a node that it removes, and a node for itself. -/
structure Naming (Key : Type) where
  rebuilt : Key → Key
  self : Key → Key

/-- How a server stands to the leader: its join is under way, the leader has added it, its
threads run, or it has stopped or given up. -/
inductive Standing where
  | joining
  | admitted
  | running
  | gone
  deriving DecidableEq

/-- What a server has got of the changes since it joined: all of them, not those that were lost on
their way, or it cannot be said, since it has misread some. -/
inductive History where
  | whole
  | gaps
  | unknown
  deriving DecidableEq

/-- A change is lost. -/
def History.lose : History → History
  | whole => gaps
  | gaps => gaps
  | unknown => unknown

/-- How a frame goes out to a server: whole, not at all, or in part. -/
inductive Delivery where
  | whole
  | lost
  | cut
  deriving DecidableEq

/-- A server: the keys of its table, the frames on their way to it, the jobs that wait for its
worker, whether it is a follower of the leader, and what it has got of the changes. -/
structure Replica (Key : Type) where
  table : List Key
  inbox : List (Change Key)
  jobs : List (Change Key)
  standing : Standing
  isFollower : Bool
  history : History

/-- `SendInformationToNode`. -/
def Replica.send {Key : Type} (change : Change Key) (delivery : Delivery) (r : Replica Key) :
    Replica Key :=
  match delivery with
  | .whole => { r with inbox := r.inbox ++ [change] }
  | .lost => { r with history := r.history.lose }
  | .cut => { r with history := .unknown }

/-- The leader counts the server in. -/
def Replica.IsMember {Key : Type} (r : Replica Key) : Prop :=
  r.standing = .admitted ∨ r.standing = .running

/-- The keys of the table of a server when its join is complete. -/
def Replica.keys {Key : Type} [DecidableEq Key] (server : Key) (r : Replica Key) : List Key :=
  if r.standing = .admitted then addKey server r.table else r.table

/-- A new node has the keys that it was sent, and nothing is on its way to it. -/
structure Replica.HasListing {Key : Type} (keys : List Key) (r : Replica Key) : Prop where
  standing : r.standing = .joining
  table : r.table = keys
  inbox : r.inbox = []
  jobs : r.jobs = []
  history : r.history = .whole

/-- How far the leader's worker is with a job; a removed node is named as it will be announced. -/
inductive LeaderJob (Key : Type) where
  | listed (node : Key)
  | added (node : Key)
  | removed (node : Key)
  deriving DecidableEq

/-- What the leader's worker has still to send to a server. -/
def unsent {Key : Type} [DecidableEq Key] (server : Key) :
    Option (LeaderJob Key) → List (Change Key)
  | some (.added node) => if server = node then [] else [.newNode node]
  | some (.removed node) => [.removeNode node]
  | _ => []

/-- The changes on their way to the table of a server. -/
def Replica.pending {Key : Type} [DecidableEq Key] (server : Key) (job : Option (LeaderJob Key))
    (r : Replica Key) : List (Change Key) :=
  r.jobs ++ r.inbox ++ unsent server job

/-- The keys of the leader's table, the job of its worker, the other servers, and the changes
that the leader has made. -/
structure Replicas (Key : Type) where
  leader : List Key
  job : Option (LeaderJob Key)
  replica : Key → Replica Key
  log : List (Change Key)

/-- A part of a job of the leader, a step of another server, or an accident: the connection of a
server is replaced before it has read the first frames or in the middle of one, a server that is
in the middle of a frame takes something for a change, or a server stops. -/
inductive ReplicaEvent (Key : Type) where
  | beforeLock (node : Key)
  | locked
  | removeLocked (node : Key)
  | afterLock (delivery : Key → Delivery)
  | addOwnNode (node : Key)
  | receive (server : Key)
  | handle (server : Key)
  | role (server : Key) (isFollower : Bool)
  | reconnect (server : Key) (unread : ℕ)
  | breakOff (server : Key)
  | misread (server : Key) (change : Change Key)
  | fail (server : Key)

namespace Replicas

variable {Key : Type} [DecidableEq Key] (names : Naming Key) (own : Key)

/-- Servers that hold the same keys and follow the leader. -/
def start (keys : List Key) : Replicas Key where
  leader := keys
  job := none
  replica := fun _ => ⟨keys, [], [], .running, true, .whole⟩
  log := []

/-- Change the state of one server. -/
def modify (server : Key) (change : Replica Key → Replica Key) (s : Replicas Key) : Replicas Key :=
  { s with replica := Function.update s.replica server (change (s.replica server)) }

/-- `handleNewConnectionBeforeLock`: the new node adds the keys that it is sent, and confirms. -/
def beforeLock (node : Key) (s : Replicas Key) : Option (Replicas Key) :=
  if s.job = none ∧ node ≠ own then
    some ({ s with job := some (.listed node) }.modify node fun _ =>
      ⟨s.leader.foldl (fun keys key => addKey key keys) [], [], [], .joining, true, .whole⟩)
  else none

/-- `handleNewConnectionLocked`: a node that is known is told so and gives up. -/
def locked (s : Replicas Key) : Option (Replicas Key) :=
  match s.job with
  | some (.listed node) =>
      if node ∈ s.leader then
        some ({ s with job := none }.modify node fun r => { r with standing := .gone })
      else
        some ({ s with
          leader := addKey node s.leader
          job := some (.added node)
          log := s.log ++ [Change.newNode node] }.modify node fun r =>
            { r with standing := .admitted })
  | _ => none

/-- `handleInternalLocked` for a node other than the own one. What is announced is not the key of
the node but the one that `set_ip4Address1` builds from it. -/
def removeLocked (node : Key) (s : Replicas Key) : Option (Replicas Key) :=
  if s.job = none ∧ node ∈ s.leader ∧ node ≠ own then
    some { s with
      leader := removeKey node s.leader
      job := some (.removed (names.rebuilt node))
      log := s.log ++ [.removeNode node] }
  else none

/-- `SendInformationToAllNodes`. -/
def sendInformationToAllNodes (change : Change Key) (skip : Option Key) (delivery : Key → Delivery)
    (s : Replicas Key) : Replicas Key :=
  { s with
    replica := fun server =>
      if server ∈ s.leader ∧ server ≠ own ∧ skip ≠ some server then
        (s.replica server).send change (delivery server)
      else s.replica server }

/-- `handleNewConnectionAfterLock` and `handleInternalAfterLock`. -/
def afterLock (delivery : Key → Delivery) (s : Replicas Key) : Option (Replicas Key) :=
  match s.job with
  | some (.added node) =>
      some (sendInformationToAllNodes own (.newNode node) (some node) delivery
        { s with job := none })
  | some (.removed node) =>
      some (sendInformationToAllNodes own (.removeNode node) none delivery { s with job := none })
  | _ => none

/-- The end of `TryFindClusterThredSafe`, after which the threads of the new node run. -/
def addOwnNode (node : Key) (s : Replicas Key) : Option (Replicas Key) :=
  if (s.replica node).standing = .admitted then
    some (s.modify node fun r =>
      { r with standing := .running, table := addKey (names.self node) r.table })
  else none

/-- The receiving thread of a server reads a frame: `raft_receive_fromAdder_newNode` rejects a
node that is known, `raft_receive_fromLeader_removeNode` any frame unless the server is a
follower. The rest of a frame that is rejected stays on the socket. -/
def receive (server : Key) (s : Replicas Key) : Option (Replicas Key) :=
  match (s.replica server).standing, (s.replica server).inbox with
  | .running, .newNode node :: rest =>
      if node ∈ (s.replica server).table then
        some (s.modify server fun r => { r with inbox := rest, history := .unknown })
      else
        some (s.modify server fun r =>
          { r with inbox := rest, jobs := r.jobs ++ [.newNode node] })
  | .running, .removeNode node :: rest =>
      if (s.replica server).isFollower then
        some (s.modify server fun r =>
          { r with inbox := rest, jobs := r.jobs ++ [.removeNode node] })
      else some (s.modify server fun r => { r with inbox := rest, history := .unknown })
  | _, _ => none

/-- `handleReceiveFromNodeLocked` in the worker of a server. -/
def handle (server : Key) (s : Replicas Key) : Option (Replicas Key) :=
  match (s.replica server).standing, (s.replica server).jobs with
  | .running, change :: rest =>
      some (s.modify server fun r => { r with table := change.apply r.table, jobs := rest })
  | _, _ => none

/-- The connection with a server is replaced, and the frames on the old one are not read. -/
def reconnect (server : Key) (unread : ℕ) (s : Replicas Key) : Replicas Key :=
  s.modify server fun r =>
    { r with
      inbox := r.inbox.drop unread
      history := if r.inbox.take unread = [] then r.history else r.history.lose }

/-- The connection with a server is replaced while its receiving thread reads a frame. -/
def breakOff (server : Key) (s : Replicas Key) : Option (Replicas Key) :=
  if (s.replica server).standing = .running then
    some (s.modify server fun r => { r with inbox := r.inbox.tail, history := .unknown })
  else none

/-- A server whose receiving thread is in the middle of a frame takes some bytes for a change. -/
def misread (server : Key) (change : Change Key) (s : Replicas Key) : Option (Replicas Key) :=
  if (s.replica server).standing = .running ∧ (s.replica server).history = .unknown then
    some (s.modify server fun r => { r with jobs := r.jobs ++ [change] })
  else none

/-- A server stops. The leader gives its join up. -/
def fail (server : Key) (s : Replicas Key) : Replicas Key :=
  { s with job := if s.job = some (LeaderJob.listed server) then none else s.job }.modify server
    fun r => { r with standing := .gone }

/-- The step that an event takes. -/
def next (s : Replicas Key) : ReplicaEvent Key → Option (Replicas Key)
  | .beforeLock node => s.beforeLock own node
  | .locked => s.locked
  | .removeLocked node => s.removeLocked names own node
  | .afterLock delivery => s.afterLock own delivery
  | .addOwnNode node => s.addOwnNode names node
  | .receive server => s.receive server
  | .handle server => s.handle server
  | .role server isFollower => some (s.modify server fun r => { r with isFollower := isFollower })
  | .reconnect server unread => some (s.reconnect server unread)
  | .breakOff server => s.breakOff server
  | .misread server change => s.misread server change
  | .fail server => some (s.fail server)

/-- The leader and the other servers as a machine. -/
def machine : Machine (Replicas Key) (ReplicaEvent Key) Empty where
  step := fun s event => (s.next names own event).map Effect.done

/-- One step of a run. -/
abbrev Step (Key : Type) : Type :=
  Transition (Replicas Key) (ReplicaEvent Key) Empty

variable {names : Naming Key} {own : Key}

/-- The defined steps. -/
inductive StepResult (names : Naming Key) (own : Key) (s : Replicas Key) :
    ReplicaEvent Key → Replicas Key → Prop where
  | listed {node : Key} (idle : s.job = none) (other : node ≠ own) :
      StepResult names own s (.beforeLock node)
        ({ s with job := some (.listed node) }.modify node fun _ =>
          ⟨s.leader.foldl (fun keys key => addKey key keys) [], [], [], .joining, true, .whole⟩)
  | rejected {node : Key} (job : s.job = some (.listed node)) (known : node ∈ s.leader) :
      StepResult names own s .locked
        ({ s with job := none }.modify node fun r => { r with standing := .gone })
  | added {node : Key} (job : s.job = some (.listed node)) (unknown : node ∉ s.leader) :
      StepResult names own s .locked
        ({ s with
          leader := addKey node s.leader
          job := some (.added node)
          log := s.log ++ [Change.newNode node] }.modify node fun r =>
            { r with standing := .admitted })
  | removed {node : Key} (idle : s.job = none) (known : node ∈ s.leader) (other : node ≠ own) :
      StepResult names own s (.removeLocked node)
        { s with
          leader := removeKey node s.leader
          job := some (.removed (names.rebuilt node))
          log := s.log ++ [.removeNode node] }
  | announcedNew {node : Key} (delivery : Key → Delivery) (job : s.job = some (.added node)) :
      StepResult names own s (.afterLock delivery)
        (sendInformationToAllNodes own (.newNode node) (some node) delivery { s with job := none })
  | announcedRemoved {node : Key} (delivery : Key → Delivery)
      (job : s.job = some (.removed node)) :
      StepResult names own s (.afterLock delivery)
        (sendInformationToAllNodes own (.removeNode node) none delivery { s with job := none })
  | started {node : Key} (admitted : (s.replica node).standing = .admitted) :
      StepResult names own s (.addOwnNode node)
        (s.modify node fun r =>
          { r with standing := .running, table := addKey (names.self node) r.table })
  | lost {server : Key} {change : Change Key} {rest : List (Change Key)}
      (running : (s.replica server).standing = .running)
      (inbox : (s.replica server).inbox = change :: rest)
      (cause : (∃ node, change = .newNode node ∧ node ∈ (s.replica server).table) ∨
        (s.replica server).isFollower = false) :
      StepResult names own s (.receive server)
        (s.modify server fun r => { r with inbox := rest, history := .unknown })
  | received {server : Key} {change : Change Key} {rest : List (Change Key)}
      (running : (s.replica server).standing = .running)
      (inbox : (s.replica server).inbox = change :: rest) :
      StepResult names own s (.receive server)
        (s.modify server fun r => { r with inbox := rest, jobs := r.jobs ++ [change] })
  | handled {server : Key} {change : Change Key} {rest : List (Change Key)}
      (running : (s.replica server).standing = .running)
      (jobs : (s.replica server).jobs = change :: rest) :
      StepResult names own s (.handle server)
        (s.modify server fun r => { r with table := change.apply r.table, jobs := rest })
  | turned (server : Key) (isFollower : Bool) :
      StepResult names own s (.role server isFollower)
        (s.modify server fun r => { r with isFollower := isFollower })
  | reconnected (server : Key) (unread : ℕ) :
      StepResult names own s (.reconnect server unread) (s.reconnect server unread)
  | brokenOff {server : Key} (running : (s.replica server).standing = .running) :
      StepResult names own s (.breakOff server)
        (s.modify server fun r => { r with inbox := r.inbox.tail, history := .unknown })
  | misread {server : Key} (change : Change Key)
      (running : (s.replica server).standing = .running)
      (unknown : (s.replica server).history = .unknown) :
      StepResult names own s (.misread server change)
        (s.modify server fun r => { r with jobs := r.jobs ++ [change] })
  | failed (server : Key) : StepResult names own s (.fail server) (s.fail server)

/-- What the receiving thread does with a frame: it queues a job, drops the addition of a
node that it knows, or turns the frame down. -/
theorem receive_result {server : Key} {s s' : Replicas Key} (next : s.receive server = some s') :
    StepResult names own s (.receive server) s' := by
  unfold receive at next
  split at next
  · rename_i node rest running inbox
    split at next
    · cases next
      exact .lost running inbox (Or.inl ⟨node, rfl, ‹_›⟩)
    · cases next
      exact .received running inbox
  · rename_i node rest running inbox
    split at next
    · cases next
      exact .received running inbox
    · rename_i other
      cases next
      exact .lost running inbox (Or.inr (Bool.eq_false_iff.mpr other))
  · cases next

/-- Every step is one of `StepResult`, with what it does to the leader and to one server. -/
theorem step_result {s : Replicas Key} {event : ReplicaEvent Key}
    {effect : Effect (Replicas Key) Empty}
    (stepped : (machine names own).step s event = some effect) :
    StepResult names own s event effect.state := by
  obtain ⟨s', next, rfl⟩ := Option.map_eq_some_iff.mp stepped
  cases event with
  | beforeLock node =>
      obtain ⟨⟨idle, other⟩, ⟨⟩⟩ := Option.ite_none_right_eq_some.mp next
      exact .listed idle other
  | locked =>
      simp only [Replicas.next, locked] at next
      split at next
      · rename_i node job
        split at next
        · cases next
          exact .rejected job ‹_›
        · cases next
          exact .added job ‹_›
      · cases next
  | removeLocked node =>
      obtain ⟨⟨idle, known, other⟩, ⟨⟩⟩ := Option.ite_none_right_eq_some.mp next
      exact .removed idle known other
  | afterLock delivery =>
      simp only [Replicas.next, afterLock] at next
      split at next
      · cases next
        exact .announcedNew delivery ‹_›
      · cases next
        exact .announcedRemoved delivery ‹_›
      · cases next
  | addOwnNode node =>
      obtain ⟨admitted, ⟨⟩⟩ := Option.ite_none_right_eq_some.mp next
      exact .started admitted
  | receive server => exact receive_result next
  | handle server =>
      simp only [Replicas.next, handle] at next
      split at next
      · cases next
        exact .handled ‹_› ‹_›
      · cases next
  | role server isFollower =>
      cases next
      exact .turned server isFollower
  | reconnect server unread =>
      cases next
      exact .reconnected server unread
  | breakOff server =>
      obtain ⟨running, ⟨⟩⟩ := Option.ite_none_right_eq_some.mp next
      exact .brokenOff running
  | misread server change =>
      obtain ⟨⟨running, unknown⟩, ⟨⟩⟩ := Option.ite_none_right_eq_some.mp next
      exact .misread change running unknown
  | fail server =>
      cases next
      exact .failed server

/-- The changes on their way to the table of a server. -/
def pending (s : Replicas Key) (server : Key) : List (Change Key) :=
  (s.replica server).pending server s.job

/-- What a server makes of the changes: all that have been made, in step, or what it has heard of
them; nothing can be said of one that has misread some. -/
def Follows (base : List Key) (log : List (Change Key)) (job : Option (LeaderJob Key))
    (server : Key) (r : Replica Key) : Prop :=
  match r.history with
  | .whole => InStep Change.apply base log (r.keys server) (r.pending server job)
  | .gaps => InPart Change.apply base log (r.keys server) (r.pending server job)
  | .unknown => True

section Follows

variable {base : List Key} {log : List (Change Key)} {job job' : Option (LeaderJob Key)}
  {server : Key} {r r' : Replica Key}

/-- Nothing is said of a server after a change that reached it in part only. -/
theorem follows_of_unknown (unknown : r.history = .unknown) : Follows base log job server r := by
  rw [Follows, unknown]
  trivial

/-- A server with a whole history is in step with the log of the leader. -/
theorem Follows.inStep (follows : Follows base log job server r) (whole : r.history = .whole) :
    InStep Change.apply base log (r.keys server) (r.pending server job) := by
  rwa [Follows, whole] at follows

/-- A server that has missed changes is in step with a part of the log. -/
theorem Follows.inPart (follows : Follows base log job server r) (gaps : r.history = .gaps) :
    InPart Change.apply base log (r.keys server) (r.pending server job) := by
  rwa [Follows, gaps] at follows

/-- A step that loses nothing keeps a server in step with whatever it follows. -/
theorem Follows.keep (follows : Follows base log job server r) (same : r'.history = r.history)
    (kept : ∀ heard, InStep Change.apply base heard (r.keys server) (r.pending server job) →
      InStep Change.apply base heard (r'.keys server) (r'.pending server job')) :
    Follows base log job' server r' := by
  unfold Follows at follows ⊢
  rw [same]
  cases history : r.history with
  | whole =>
      rw [history] at follows
      exact kept log follows
  | gaps =>
      rw [history] at follows
      obtain ⟨heard, part, inStep⟩ := follows
      exact ⟨heard, part, kept heard inStep⟩
  | unknown => trivial

/-- A change is made that is on its way to the server. -/
theorem Follows.publish (follows : Follows base log job server r) (change : Change Key)
    (later : r.pending server job' = r.pending server job ++ [change]) :
    Follows base (log ++ [change]) job' server r := by
  unfold Follows at follows ⊢
  rw [later]
  cases history : r.history with
  | whole =>
      rw [history] at follows
      exact InStep.publish follows change
  | gaps =>
      rw [history] at follows
      exact InPart.publish follows change
  | unknown => trivial

/-- Some of the changes on their way are lost. What the server has got so far stays a part
of the log. -/
theorem Follows.lose (follows : Follows base log job server r) (gaps : r'.history = r.history.lose)
    (keys : r'.keys server = r.keys server) (front lost back : List (Change Key))
    (before : r.pending server job = front ++ lost ++ back)
    (after : r'.pending server job' = front ++ back) : Follows base log job' server r' := by
  unfold Follows at follows ⊢
  rw [gaps, keys, after]
  rw [before] at follows
  cases history : r.history with
  | whole =>
      rw [history] at follows
      exact InStep.lose follows
  | gaps =>
      rw [history] at follows
      exact InPart.lose follows
  | unknown => trivial

end Follows

/-- The leader's table is made by the changes from the first one on, and every server that the
leader counts in follows them. -/
structure Followed (own : Key) (base : List Key) (s : Replicas Key) : Prop where
  distinct : s.leader.Nodup
  made : s.leader = s.log.foldl Change.apply base
  listed : ∀ node, s.job = some (.listed node) → (s.replica node).HasListing s.leader
  follows : ∀ server ∈ s.leader, server ≠ own → (s.replica server).IsMember →
    Follows base s.log s.job server (s.replica server)

omit [DecidableEq Key] in
/-- A server that is joining is not a member yet. -/
theorem not_isMember_of_joining {r : Replica Key} (joining : r.standing = .joining) :
    ¬r.IsMember := by
  rintro (admitted | running)
  · cases joining.symm.trans admitted
  · cases joining.symm.trans running

omit [DecidableEq Key] in
/-- A server that has been removed is no member any more. -/
theorem not_isMember_of_gone {r : Replica Key} (gone : r.standing = .gone) : ¬r.IsMember := by
  rintro (admitted | running)
  · cases gone.symm.trans admitted
  · cases gone.symm.trans running

/-- A server that runs has added itself already. -/
theorem keys_of_running {server : Key} {r : Replica Key} (running : r.standing = .running) :
    r.keys server = r.table := by
  rw [Replica.keys, running, if_neg (by decide)]

/-- Adding a key leaves the keys distinct. -/
theorem nodup_addKey {key : Key} {keys : List Key} (distinct : keys.Nodup) :
    (addKey key keys).Nodup := by
  unfold addKey
  split
  · exact distinct
  · exact List.nodup_append_comm.mp (List.nodup_cons.mpr ⟨‹_›, distinct⟩)

/-- Removing a key removes that key and no other. -/
theorem mem_removeKey {key other : Key} {keys : List Key} :
    other ∈ removeKey key keys ↔ other ∈ keys ∧ other ≠ key := by
  rw [removeKey, List.mem_filter, decide_eq_true_iff]

/-- Distinct keys are added as they stand. -/
theorem foldl_addKey_eq (keys received : List Key) (distinct : (keys ++ received).Nodup) :
    received.foldl (fun keys key => addKey key keys) keys = keys ++ received := by
  induction received generalizing keys with
  | nil => exact (List.append_nil keys).symm
  | cons key received ih =>
      have fresh : key ∉ keys := fun old =>
        (List.nodup_append.mp distinct).2.2 key old key List.mem_cons_self rfl
      rw [List.append_cons] at distinct ⊢
      rw [List.foldl_cons, addKey, if_neg fresh, ih _ distinct]

section Modify

variable {base : List Key} {s : Replicas Key} {server : Key} {change : Replica Key → Replica Key}

/-- A change of one server. -/
theorem replica_modify_self : (s.modify server change).replica server =
    change (s.replica server) :=
  Function.update_self ..

/-- A change of one server leaves the others alone. -/
theorem replica_modify_of_ne {other : Key} (different : other ≠ server) :
    (s.modify server change).replica other = s.replica other :=
  Function.update_of_ne different ..

/-- A step of one server keeps the others as they are, so only that server has to be looked
at. -/
theorem Followed.modify (followed : Followed own base s)
    (listed : s.job = some (.listed server) →
      (change (s.replica server)).HasListing s.leader)
    (follows : server ∈ s.leader → server ≠ own → (change (s.replica server)).IsMember →
      Follows base s.log s.job server (change (s.replica server))) :
    Followed own base (s.modify server change) := by
  refine ⟨followed.distinct, followed.made, fun node job => ?_, fun other known notOwn member => ?_⟩
  · by_cases same : node = server
    · subst same
      rw [replica_modify_self]
      exact listed job
    · rw [replica_modify_of_ne same]
      exact followed.listed node job
  · by_cases same : other = server
    · subst same
      rw [replica_modify_self] at member ⊢
      exact follows known notOwn member
    · rw [replica_modify_of_ne same] at member ⊢
      exact followed.follows other known notOwn member

/-- The join of a server that the leader counts in is not under way. -/
theorem Followed.not_listed (followed : Followed own base s)
    (member : (s.replica server).IsMember) : s.job ≠ some (.listed server) :=
  fun job => not_isMember_of_joining (followed.listed server job).standing member

/-- A server that the leader counts in makes a step that keeps what it follows. -/
theorem Followed.modify_member (followed : Followed own base s)
    (member : (s.replica server).IsMember)
    (follows : Follows base s.log s.job server (s.replica server) →
      Follows base s.log s.job server (change (s.replica server))) :
    Followed own base (s.modify server change) :=
  followed.modify (fun job => absurd job (followed.not_listed member))
    fun known notOwn _ => follows (followed.follows server known notOwn member)

end Modify

section Followed

variable {base : List Key} {s : Replicas Key}

/-- A frame goes out to a server, or a part of it or nothing: the history of the server
records which. -/
theorem Follows.send {log : List (Change Key)} {job : Option (LeaderJob Key)} {server : Key}
    {r : Replica Key} (follows : Follows base log job server r) {change : Change Key}
    (left : unsent server job = [change]) (delivery : Delivery) :
    Follows base log none server (r.send change delivery) := by
  have before : r.pending server job = r.jobs ++ r.inbox ++ [change] := by
    rw [Replica.pending, left]
  cases delivery with
  | whole =>
      refine follows.keep rfl fun heard inStep => ?_
      have after : (r.send change .whole).pending server none = r.jobs ++ r.inbox ++ [change] :=
        (List.append_nil _).trans (List.append_assoc ..).symm
      rw [after]
      rwa [before] at inStep
  | lost =>
      refine follows.lose rfl rfl (r.jobs ++ r.inbox) [change] [] ?_ ?_
      · rw [before, List.append_nil]
      · rfl
  | cut => exact follows_of_unknown rfl

/-- The leader sends a change that it has made. Every member it lists gets the frame into
its inbox, or the loss into its history. -/
theorem Followed.sendInformationToAllNodes (followed : Followed own base s) {change : Change Key}
    {skip : Option Key} (delivery : Key → Delivery)
    (left : ∀ server, unsent server s.job = if skip = some server then [] else [change]) :
    Followed own base
      (sendInformationToAllNodes own change skip delivery { s with job := none }) := by
  refine ⟨followed.distinct, followed.made, fun node job => (nomatch job),
    fun server known notOwn member => ?_⟩
  have sent : (Replicas.sendInformationToAllNodes own change skip delivery
      { s with job := none }).replica server =
        if skip ≠ some server then (s.replica server).send change (delivery server)
        else s.replica server := by
    by_cases skipped : skip = some server
    · simp [Replicas.sendInformationToAllNodes, skipped]
    · simp [Replicas.sendInformationToAllNodes, skipped, notOwn, show server ∈ s.leader from known]
  have standing : (s.replica server).IsMember := by
    rw [sent] at member
    split at member
    · cases deliver : delivery server <;> rw [deliver] at member <;> exact member
    · exact member
  have goes := followed.follows server known notOwn standing
  rw [sent]
  by_cases skipped : skip = some server
  · rw [if_neg (not_not.mpr skipped)]
    refine goes.keep rfl fun heard inStep => ?_
    rwa [Replica.pending, left, if_pos skipped] at inStep
  · rw [if_pos skipped]
    exact goes.send ((left server).trans (if_neg skipped)) _

/-- The leader's worker turns to a job that sends no more to a server than the last one did. -/
theorem Followed.follows_of_job (followed : Followed own base s) {job : Option (LeaderJob Key)}
    {server : Key} (same : unsent server job = unsent server s.job) (known : server ∈ s.leader)
    (notOwn : server ≠ own) (member : (s.replica server).IsMember) :
    Follows base s.log job server (s.replica server) :=
  (followed.follows server known notOwn member).keep rfl fun heard inStep => by
    rwa [Replica.pending, ← same] at inStep

/-- The leader gives up a join that is under way. -/
theorem Followed.giveUp (followed : Followed own base s) {node : Key}
    (job : s.job = some (.listed node)) :
    Followed own base
      ({ s with job := none }.modify node fun r => { r with standing := .gone }) := by
  have idle : Followed own base { s with job := none } :=
    ⟨followed.distinct, followed.made, fun _ absurdity => (nomatch absurdity),
      fun server => followed.follows_of_job (by rw [job]; rfl)⟩
  exact idle.modify (fun absurdity => (nomatch absurdity))
    fun _ _ member => absurd member (not_isMember_of_gone rfl)

/-- The leader makes a change of its table: the change is appended to the log, and to what
each member has still to get. -/
theorem Followed.publish (followed : Followed own base s) (change : Change Key)
    (job : LeaderJob Key) (quiet : ∀ server, unsent server s.job = [])
    (distinct : (change.apply s.leader).Nodup) (unlisted : ∀ node, job ≠ .listed node)
    (left : ∀ server ∈ change.apply s.leader, (s.replica server).IsMember →
      server ∈ s.leader ∧ unsent server (some job) = [change]) :
    Followed own base
      { s with leader := change.apply s.leader, job := some job, log := s.log ++ [change] } := by
  refine ⟨distinct, ?_, fun node same => absurd (Option.some.inj same) (unlisted node),
    fun server listed notOwn member => ?_⟩
  · rw [List.foldl_append, ← followed.made]
    rfl
  · obtain ⟨known, later⟩ := left server listed member
    refine (followed.follows server known notOwn member).publish change ?_
    rw [Replica.pending, later, Replica.pending, quiet, List.append_nil]

/-- A new node gets the listing. It is no member yet, and the members are as they were. -/
theorem Followed.list (followed : Followed own base s) {node : Key} (idle : s.job = none) :
    Followed own base ({ s with job := some (.listed node) }.modify node fun _ =>
      ⟨s.leader.foldl (fun keys key => addKey key keys) [], [], [], .joining, true, .whole⟩) := by
  refine ⟨followed.distinct, followed.made, fun other job => ?_,
    fun server known notOwn member => ?_⟩
  · cases job
    rw [replica_modify_self]
    exact ⟨rfl, foldl_addKey_eq [] s.leader followed.distinct, rfl, rfl, rfl⟩
  · by_cases same : server = node
    · subst same
      rw [replica_modify_self] at member
      exact absurd member (not_isMember_of_joining rfl)
    · rw [replica_modify_of_ne same] at member ⊢
      exact followed.follows_of_job (by rw [idle]; rfl) known notOwn member

/-- The leader adds the new node, which is a member from then on. Nothing happens between the
listing and the addition, so with its own key the new node has the table of the leader. -/
theorem Followed.admit (followed : Followed own base s) {node : Key}
    (job : s.job = some (.listed node)) :
    Followed own base
      ({ s with
        leader := addKey node s.leader
        job := some (.added node)
        log := s.log ++ [Change.newNode node] }.modify node fun r =>
          { r with standing := .admitted }) := by
  obtain ⟨joining, table, inbox, jobs, history⟩ := followed.listed node job
  have made := followed.publish (.newNode node) (.added node)
    (fun server => by rw [job]; rfl) (nodup_addKey followed.distinct) nofun
    fun server listed member => by
      have different : server ≠ node := by
        rintro rfl
        exact not_isMember_of_joining joining member
      exact ⟨(Joins.mem_addKey.mp listed).resolve_right different, if_neg different⟩
  refine made.modify (fun absurdity => (nomatch absurdity)) fun _ _ _ => ?_
  have complete : addKey node s.leader =
      (s.log ++ [Change.newNode node]).foldl Change.apply base := made.made
  have nothing : unsent node (some (.added node)) = [] := if_pos rfl
  simp only [Follows, history, Replica.keys, Replica.pending, table, jobs, inbox, nothing,
    if_true, List.append_nil, complete]
  exact .joined

/-- A server fails and is followed no more; the leader gives up its join if one is under way. -/
theorem Followed.fail (followed : Followed own base s) (server : Key) :
    Followed own base (s.fail server) := by
  unfold Replicas.fail
  split
  · exact followed.giveUp ‹_›
  · exact followed.modify (fun job => absurd job ‹_›)
      fun _ _ member => absurd member (not_isMember_of_gone rfl)

/-- The keys by which a node is announced as removed, and by which it knows itself, are the one in
the leader's table. -/
def Canonical (names : Naming Key) : ReplicaEvent Key → Prop
  | .removeLocked node => names.rebuilt node = node
  | .addOwnNode node => names.self node = node
  | _ => True

instance (event : ReplicaEvent Key) : Decidable (Canonical names event) := by
  unfold Canonical
  split <;> infer_instance

/-- The connection with a server is replaced, and the frames that were not read go with the
old one. -/
theorem Followed.reconnect (followed : Followed own base s) (server : Key) (unread : ℕ) :
    Followed own base (s.reconnect server unread) := by
  refine followed.modify (fun job => ?_) fun known notOwn member => ?_
  · obtain ⟨standing, table, inbox, jobs, history⟩ := followed.listed server job
    exact ⟨standing, table, by rw [inbox, List.drop_nil], jobs, by
      rw [inbox, List.take_nil, if_pos rfl, history]⟩
  · have goes := followed.follows server known notOwn member
    have inbox := List.take_append_drop unread (s.replica server).inbox
    by_cases read : (s.replica server).inbox.take unread = []
    · refine goes.keep (if_pos read) fun heard inStep => ?_
      rw [read, List.nil_append] at inbox
      rwa [Replica.pending, ← inbox] at inStep
    · refine goes.lose (if_neg read) rfl (s.replica server).jobs
        ((s.replica server).inbox.take unread)
        ((s.replica server).inbox.drop unread ++ unsent server s.job) ?_ (List.append_assoc ..)
      rw [← List.append_assoc, List.append_assoc _ (List.take _ _), inbox]
      rfl

/-- One step keeps every member in step with the log of the leader, or with a part of it. A
removal has to name its node by a canonical key, as the others look the rebuilt key up. -/
theorem Followed.step {event : ReplicaEvent Key} {s' : Replicas Key}
    (followed : Followed own base s) (result : StepResult names own s event s')
    (canonical : Canonical names event) : Followed own base s' := by
  cases result with
  | listed idle _ => exact followed.list idle
  | rejected job _ => exact followed.giveUp job
  | added job _ => exact followed.admit job
  | @removed node idle known other =>
      have announced : LeaderJob.removed (names.rebuilt node) = .removed node :=
        congrArg _ canonical
      rw [announced]
      exact followed.publish (.removeNode node) (.removed node) (fun server => by rw [idle]; rfl)
        (followed.distinct.filter _) nofun
        fun server listed _ => ⟨(mem_removeKey.mp listed).1, rfl⟩
  | @announcedNew node delivery job =>
      refine followed.sendInformationToAllNodes delivery fun server => ?_
      rw [job]
      simp [unsent, eq_comm]
  | @announcedRemoved node delivery job =>
      refine followed.sendInformationToAllNodes delivery fun server => ?_
      rw [job]
      rfl
  | @started node admitted =>
      refine followed.modify_member (Or.inl admitted) fun follows =>
        follows.keep rfl fun heard inStep => ?_
      rw [Replica.keys, if_pos admitted] at inStep
      rw [show names.self node = node from canonical]
      exact inStep
  | @lost server change rest running inbox cause =>
      exact followed.modify_member (Or.inr running) fun _ => follows_of_unknown rfl
  | @received server change rest running inbox =>
      refine followed.modify_member (Or.inr running) fun follows =>
        follows.keep rfl fun heard inStep => ?_
      rw [Replica.pending, inbox, ← List.singleton_append, ← List.append_assoc] at inStep
      exact inStep
  | @handled server change rest running jobs =>
      refine followed.modify_member (Or.inr running) fun follows =>
        follows.keep rfl fun heard inStep => ?_
      rw [Replica.pending, jobs, keys_of_running running] at inStep
      have table : Replica.keys server { s.replica server with
          table := change.apply (s.replica server).table, jobs := rest } =
            change.apply (s.replica server).table := keys_of_running running
      rw [table]
      exact inStep.take
  | turned server isFollower =>
      refine followed.modify (fun job => ?_) fun known notOwn member =>
        (followed.follows server known notOwn member).keep rfl fun _ inStep => inStep
      obtain ⟨standing, table, inbox, jobs, history⟩ := followed.listed server job
      exact ⟨standing, table, inbox, jobs, history⟩
  | reconnected server unread => exact followed.reconnect server unread
  | @brokenOff server running =>
      exact followed.modify_member (Or.inr running) fun _ => follows_of_unknown rfl
  | @misread server change running unknown =>
      exact followed.modify_member (Or.inr running) fun _ => follows_of_unknown unknown
  | failed server => exact followed.fail server

/-- At the start all servers have the listing of the leader and have heard of nothing else. -/
theorem followed_start (distinct : base.Nodup) : Followed own base (start base) := by
  refine ⟨distinct, rfl, fun _ absurdity => (nomatch absurdity), fun server _ _ _ => ?_⟩
  exact ⟨[], rfl, keys_of_running rfl⟩

/-- In every run in which the keys are canonical the servers follow the leader. -/
theorem followed_of_run (distinct : base.Nodup) {trace : List (Step Key)}
    (run : (machine names own).Run (start base) trace s)
    (canonical : ∀ t ∈ trace, Canonical names t.event) : Followed own base s := by
  apply run.invariant_along (P := fun _ t => Canonical names t.event)
    (fun _ s => Followed own base s) (followed_start distinct) ?_ (along_of_forall canonical)
  intro trace s event effect _ followed stepped canonical
  exact followed.step (step_result stepped) canonical

end Followed

/-- The tables that the leader has had. -/
def leaderTables (base : List Key) (trace : List (Step Key)) : List (List Key) :=
  base :: trace.map fun t => t.after.leader

/-- A step makes at most one change. -/
theorem StepResult.log {s s' : Replicas Key} {event : ReplicaEvent Key}
    (result : StepResult names own s event s') :
    s'.log = s.log ∨ ∃ change, s'.log = s.log ++ [change] := by
  cases result with
  | added _ _ => exact Or.inr ⟨_, rfl⟩
  | removed _ _ _ => exact Or.inr ⟨_, rfl⟩
  | _ => exact Or.inl rfl

/-- The leader has had every table that a first part of its changes makes, so a server that
is in step has a table that the leader had. -/
theorem mem_leaderTables {base : List Key} (distinct : base.Nodup) {trace : List (Step Key)}
    {s : Replicas Key} (run : (machine names own).Run (start base) trace s)
    (canonical : ∀ t ∈ trace, Canonical names t.event) :
    ∀ taken, taken <+: s.log → taken.foldl Change.apply base ∈ leaderTables base trace := by
  apply run.invariant_along (P := fun _ t => Canonical names t.event)
    (fun trace s => (∀ t ∈ trace, Canonical names t.event) → ∀ taken, taken <+: s.log →
      taken.foldl Change.apply base ∈ leaderTables base trace) ?_ ?_
    (along_of_forall canonical) canonical
  · intro _ taken first
    rw [List.prefix_nil.mp first]
    exact List.mem_cons_self
  · intro trace s event effect reached old stepped here canonical taken first
    have past : ∀ t ∈ trace, Canonical names t.event := fun t member =>
      canonical t (List.mem_append_left _ member)
    have kept {table : List Key} (member : table ∈ leaderTables base trace) :
        table ∈ leaderTables base
          (trace ++ [⟨s, event, effect.state, effect.emitted⟩]) := by
      rw [leaderTables, List.map_append, ← List.cons_append]
      exact List.mem_append_left _ member
    have result := step_result stepped
    rcases result.log with same | ⟨change, more⟩
    · exact kept (old past taken (same ▸ first))
    · rw [more, List.prefix_concat_iff] at first
      rcases first with rfl | first
      · rw [← more, ← ((followed_of_run distinct reached past).step result here).made,
          leaderTables, List.map_append, ← List.cons_append]
        exact List.mem_append_right _ List.mem_cons_self
      · exact kept (old past taken first)

/-- A node joins, which is announced as given, and another is removed while a server has read of
the first only. -/
def joinAndRemoval (delivery : Key → Delivery) (node removed server : Key) :
    List (ReplicaEvent Key) :=
  [.beforeLock node, .locked, .afterLock delivery, .removeLocked removed, .addOwnNode node,
    .afterLock fun _ => .whole, .receive server, .handle server, .receive server]

/-- The announcement reaches all servers but one, which then hears of the removal. -/
def oneMissesJoin (node removed server other : Key) : List (ReplicaEvent Key) :=
  joinAndRemoval (fun listed => if listed = other then .lost else .whole) node removed server ++
    [.receive other, .handle other]

/-- A step in which nothing goes wrong: the keys are canonical, a node that joins was never a
member, a broadcast reaches all servers, a server is a follower when it reads a frame and its
connection is not replaced before it has done so, and no server of the leader's table stops. -/
def Orderly (names : Naming Key) (base : List Key) (s : Replicas Key) : ReplicaEvent Key → Prop
  | .beforeLock node => node ∉ base ∧ .newNode node ∉ s.log
  | .removeLocked node => names.rebuilt node = node
  | .addOwnNode node => names.self node = node
  | .afterLock delivery => ∀ server ∈ s.leader, delivery server = .whole
  | .receive server => (s.replica server).isFollower = true
  | .reconnect server unread => server ∈ s.leader → (s.replica server).inbox.take unread = []
  | .breakOff server => server ∉ s.leader
  | .fail server => server ∉ s.leader
  | _ => True

instance (base : List Key) (s : Replicas Key) (event : ReplicaEvent Key) :
    Decidable (Orderly names base s event) := by
  unfold Orderly
  split <;> infer_instance

omit [DecidableEq Key] in
/-- An orderly step names nodes by canonical keys. -/
theorem Orderly.canonical {base : List Key} {s : Replicas Key} {event : ReplicaEvent Key}
    (orderly : Orderly names base s event) : Canonical names event := by
  cases event with
  | removeLocked node => exact orderly
  | addOwnNode node => exact orderly
  | _ => trivial

/-- No node has been added twice. -/
def Fresh (base : List Key) (log : List (Change Key)) : Prop :=
  ∀ early node late, log = early ++ .newNode node :: late →
    node ∉ base ∧ .newNode node ∉ early

omit [DecidableEq Key] in
/-- A change that adds a key which was never there keeps additions unique. -/
theorem Fresh.append {base : List Key} {log : List (Change Key)} (fresh : Fresh base log)
    {change : Change Key}
    (new : ∀ node, change = .newNode node → node ∉ base ∧ .newNode node ∉ log) :
    Fresh base (log ++ [change]) := by
  intro early node late split
  rcases List.eq_nil_or_concat late with rfl | ⟨front, last, rfl⟩
  · obtain ⟨rfl, single⟩ := List.append_inj' split rfl
    exact new node (List.singleton_inj.mp single)
  · rw [List.concat_eq_append, ← List.cons_append, ← List.append_assoc] at split
    exact fresh early node front (List.append_inj' split rfl).1

/-- A key is in a table because it was from the first, or was added. -/
theorem mem_foldl_apply {node : Key} (taken : List (Change Key)) {base : List Key}
    (member : node ∈ taken.foldl Change.apply base) : node ∈ base ∨ .newNode node ∈ taken := by
  induction taken generalizing base with
  | nil => exact Or.inl member
  | cons change taken ih =>
      rcases ih member with before | later
      · cases change with
        | newNode other =>
            rcases Joins.mem_addKey.mp before with old | rfl
            · exact Or.inl old
            · exact Or.inr List.mem_cons_self
        | removeNode other => exact Or.inl (mem_removeKey.mp before).1
      · exact Or.inr (List.mem_cons_of_mem _ later)

/-- The leader counts the server in, and it has got all the changes. -/
structure Replica.Whole {Key : Type} (r : Replica Key) : Prop where
  member : r.IsMember
  history : r.history = .whole

/-- Every server of the leader's table has got all the changes, and no node was added twice. -/
structure Kept (own : Key) (base : List Key) (s : Replicas Key) : Prop where
  members : ∀ server ∈ s.leader, server ≠ own → Replica.Whole (s.replica server)
  fresh : Fresh base s.log
  listed : ∀ node, s.job = some (.listed node) → node ∉ base ∧ .newNode node ∉ s.log

section Kept

variable {base : List Key} {s : Replicas Key}

/-- A change of one server keeps the whole histories of the members if it keeps that one. -/
theorem Kept.modify (kept : Kept own base s) {server : Key} {change : Replica Key → Replica Key}
    (member : server ∈ s.leader → server ≠ own → Replica.Whole (s.replica server) →
      Replica.Whole (change (s.replica server))) : Kept own base (s.modify server change) := by
  refine ⟨fun other known notOwn => ?_, kept.fresh, kept.listed⟩
  by_cases same : other = server
  · subst same
    rw [replica_modify_self]
    exact member known notOwn (kept.members other known notOwn)
  · rw [replica_modify_of_ne same]
    exact kept.members other known notOwn

/-- A broadcast that reaches every node keeps the histories whole. -/
theorem Kept.sendInformationToAllNodes (kept : Kept own base s) {change : Change Key}
    {skip : Option Key} {delivery : Key → Delivery}
    (all : ∀ server ∈ s.leader, delivery server = .whole) :
    Kept own base (sendInformationToAllNodes own change skip delivery { s with job := none }) := by
  refine ⟨fun server known notOwn => ?_, kept.fresh, fun _ absurdity => (nomatch absurdity)⟩
  obtain ⟨member, history⟩ := kept.members server known notOwn
  simp only [Replicas.sendInformationToAllNodes, Replica.send, all server known]
  split <;> exact ⟨member, history⟩

/-- A node that was never added is not in the leader's table. -/
theorem Followed.not_mem_leader (followed : Followed own base s) {node : Key}
    (new : node ∉ base ∧ .newNode node ∉ s.log) : node ∉ s.leader := by
  rw [followed.made]
  intro member
  exact (mem_foldl_apply s.log member).elim new.1 new.2

/-- A node whose addition is on its way to a server is not in the table of the server: keys
are added once, and the server has got what came before. -/
theorem Kept.not_mem_table (kept : Kept own base s) (followed : Followed own base s)
    {server node : Key} (known : server ∈ s.leader) (other : server ≠ own)
    (running : (s.replica server).standing = .running) {rest : List (Change Key)}
    (inbox : (s.replica server).inbox = .newNode node :: rest) :
    node ∉ (s.replica server).table := by
  obtain ⟨member, history⟩ := kept.members server known other
  obtain ⟨taken, whole, table⟩ := (followed.follows server known other member).inStep history
  rw [keys_of_running running] at table
  rw [Replica.pending, inbox, List.append_assoc, List.cons_append, ← List.append_assoc] at whole
  obtain ⟨new, once⟩ := kept.fresh _ node _ whole.symm
  rw [table]
  intro member
  rcases mem_foldl_apply taken member with old | added
  · exact new old
  · exact once (List.mem_append_left _ added)

/-- One orderly step keeps the histories whole. A frame is only dropped for a node that is
known, which the freshness of keys excludes. -/
theorem Kept.step {event : ReplicaEvent Key} {s' : Replicas Key} (kept : Kept own base s)
    (followed : Followed own base s) (result : StepResult names own s event s')
    (orderly : Orderly names base s event) : Kept own base s' := by
  cases result with
  | @listed node idle other =>
      refine ⟨fun server known notOwn => ?_, kept.fresh, fun other job => ?_⟩
      · have different : server ≠ node := by
          rintro rfl
          exact followed.not_mem_leader orderly known
        rw [replica_modify_of_ne different]
        exact kept.members server known notOwn
      · cases job
        exact orderly
  | @rejected node job known => exact absurd known (followed.not_mem_leader (kept.listed node job))
  | @added node job unknown =>
      refine ⟨fun server listed notOwn => ?_, kept.fresh.append ?_,
        fun _ absurdity => (nomatch absurdity)⟩
      · by_cases same : server = node
        · subst same
          rw [replica_modify_self]
          exact ⟨Or.inl rfl, (followed.listed server job).history⟩
        · rw [replica_modify_of_ne same]
          exact kept.members server ((Joins.mem_addKey.mp listed).resolve_right same) notOwn
      · rintro _ ⟨⟩
        exact kept.listed node job
  | @removed node idle known other =>
      exact ⟨fun server listed notOwn => kept.members server (mem_removeKey.mp listed).1 notOwn,
        kept.fresh.append nofun, fun _ absurdity => (nomatch absurdity)⟩
  | announcedNew _ _ => exact kept.sendInformationToAllNodes orderly
  | announcedRemoved _ _ => exact kept.sendInformationToAllNodes orderly
  | started _ => exact kept.modify fun _ _ whole => ⟨Or.inr rfl, whole.history⟩
  | @lost server change rest running inbox cause =>
      refine kept.modify fun known other _ => ?_
      rcases cause with ⟨node, rfl, listed⟩ | turned
      · exact absurd listed (kept.not_mem_table followed known other running inbox)
      · cases turned.symm.trans orderly
  | received _ _ => exact kept.modify fun _ _ whole => ⟨whole.member, whole.history⟩
  | handled _ _ => exact kept.modify fun _ _ whole => ⟨whole.member, whole.history⟩
  | turned _ _ => exact kept.modify fun _ _ whole => ⟨whole.member, whole.history⟩
  | reconnected server unread =>
      refine kept.modify fun known _ whole => ⟨whole.member, ?_⟩
      exact (if_pos (orderly known)).trans whole.history
  | brokenOff _ => exact kept.modify fun known _ _ => absurd known orderly
  | misread change running unknown =>
      exact kept.modify fun _ _ whole => ⟨whole.member, whole.history⟩
  | failed server =>
      refine ⟨fun other known notOwn => ?_, kept.fresh, fun node job => ?_⟩
      · have different : other ≠ server := by
          rintro rfl
          exact orderly known
        rw [fail, replica_modify_of_ne different]
        exact kept.members other known notOwn
      · refine kept.listed node ?_
        rw [fail] at job
        by_cases joins : s.job = some (.listed server)
        · cases (if_pos joins).symm.trans job
        · exact (if_neg joins).symm.trans job

omit [DecidableEq Key] in
/-- At the start every history is whole. -/
theorem kept_start (base : List Key) : Kept own base (start base) := by
  refine ⟨fun _ _ _ => ⟨Or.inr rfl, rfl⟩, fun early node late split => ?_,
    fun _ absurdity => (nomatch absurdity)⟩
  simp [start] at split

end Kept

/-- A removal that is announced by another key leaves the node in the other tables. -/
example :
    let s := (machine ⟨fun _ => 3, id⟩ (0 : Fin 4)).stateOf (start [0, 1, 2])
      [.removeLocked 1, .afterLock fun _ => .whole, .receive 2, .handle 2]
    s.leader = [0, 2] ∧ (s.replica 2).table = [0, 1, 2] := by
  decide

end Replicas

namespace Host

/-- The keys that the hosts of the servers build for a node in the leader's table: the leader by
`set_ip4Address1` on the text of the address, and the node by `GetOwnIp4Address`. -/
def naming (leader : Host) (hostOf : NodeIdentifierKey → Host) : Naming NodeIdentifierKey where
  rebuilt key := leader.keyByName key.ip4Address.text key.port key.portFits
  self key := (hostOf key).ownKey key.port key.portFits

variable {leader : Host} {hostOf : NodeIdentifierKey → Host} {address : InAddr} {port : Int}
  {fits : IsInt port}

/-- The removal of a node that was added by the address of its connection is announced by the key
of the node. -/
theorem canonical_removeLocked (remote : address ≠ loopback) :
    Replicas.Canonical (naming leader hostOf)
      (.removeLocked (leader.keyByAddress address port fits)) := by
  have stored : leader.setIp4Address2 address = .padded maxIp4Len (inetNtoa address) := by
    rw [setIp4Address2_eq, if_neg remote]
  have text : (leader.setIp4Address2 address).text = inetNtoa address := by
    rw [stored]
    exact Block.text_padded (isText_inetNtoa address) (length_inetNtoa address)
  refine NodeIdentifierKey.ext rfl ?_
  show leader.setIp4Address1 (leader.setIp4Address2 address).text = leader.setIp4Address2 address
  rw [text, setIp4Address1_inetNtoa]

/-- Such a node knows itself by that key exactly if its own address, the last that is copied,
covers those that were copied before. -/
theorem canonical_addOwnNode_iff (remote : address ≠ loopback) {earlier : List InAddr}
    (copied : (copiedAddresses
      (hostOf (leader.keyByAddress address port fits)).interfaces).reverse = address :: earlier) :
    Replicas.Canonical (naming leader hostOf)
        (.addOwnNode (leader.keyByAddress address port fits)) ↔
      Block.Covers ((inetNtoa address).length + 1)
        (earlier.map fun address => (inetNtoa address).length) := by
  rw [Replicas.Canonical, ← getOwnIp4Address_eq_padded_iff copied, NodeIdentifierKey.ext_iff]
  refine (and_iff_right rfl).trans ?_
  show getOwnIp4Address _ = leader.setIp4Address2 address ↔ _
  rw [setIp4Address2_eq, if_neg remote]

end Host

namespace Server

/-- The changes that a call makes in the node table. -/
def changes (s : Server) : Call → List (Change NodeIdentifierKey)
  | .newConnection nodeKey => [.newNode nodeKey]
  | .receive (.newNode nodeKey) _ => [.newNode nodeKey]
  | .receive (.removeNode nodeKey) _ => [.removeNode nodeKey]
  | .receive .oldLeaderDied _ => (s.leaderNode.map Change.removeNode).toList
  | .internal .removeNode node =>
      if s.raft.state = .leader then (node.map Change.removeNode).toList else []
  | .internal .becomeLeader _ =>
      if s.raft.state = .candidate then (s.leaderNode.map Change.removeNode).toList else []
  | .ableToVote _ _ => []
  | .raft _ => []

variable {s : Server} {effect : Effect Server Output}

/-- `AddNode` of the TCP server adds a key to the listing unless it is there. -/
theorem addNode_nodes {nodeKey : NodeIdentifierKey}
    (defined : (s.addNode nodeKey).effect? = some effect) :
    effect.state.raft.table.nodes = addKey nodeKey s.raft.table.nodes := by
  rw [Joins.addKey_nodes]
  unfold addNode at defined
  split at defined
  · rename_i known
    rw [eq_of_returned defined, known]
    rfl
  · rename_i table added
    rw [eq_of_returned defined, added]
    rfl

/-- The locked part of a request makes the changes that the request stands for. -/
theorem handleReceiveFromNodeLocked_nodes {request : LockedRequest} {sender : NodeIdentifierKey}
    (defined : (s.handleReceiveFromNodeLocked request sender).effect? = some effect) :
    effect.state.raft.table.nodes =
      (s.changes (.receive request sender)).foldl Change.apply s.raft.table.nodes := by
  cases request with
  | newNode nodeKey => exact addNode_nodes defined
  | removeNode nodeKey =>
      rw [eq_of_returned defined]
      rfl
  | oldLeaderDied =>
      unfold handleReceiveFromNodeLocked at defined
      simp only at defined
      split at defined
      · rename_i pointer
        rw [eq_of_returned defined, changes, pointer]
        rfl
      · rename_i leader pointer
        obtain ⟨_, ⟨⟩, -, defined⟩ := follow_bind_effect? defined
        obtain ⟨_, ⟨⟩, -, defined⟩ := follow_bind_effect? defined
        rw [eq_of_returned defined, changes, pointer]
        rfl

/-- The locked part of an internal request makes the changes that the request stands for. -/
theorem handleInternalLocked_nodes {request : InternalRequest} {node : Option NodeIdentifierKey}
    (defined : (s.handleInternalLocked request node).effect? = some effect) :
    effect.state.raft.table.nodes =
      (s.changes (.internal request node)).foldl Change.apply s.raft.table.nodes := by
  cases request with
  | removeNode =>
      unfold handleInternalLocked at defined
      simp only at defined
      split at defined
      · rename_i leads
        obtain ⟨_, rfl, -, defined⟩ := follow_bind_effect? defined
        rw [eq_of_returned defined, changes, if_pos leads]
        rfl
      · rename_i other
        rw [eq_of_returned defined, changes, if_neg other]
        rfl
  | becomeLeader =>
      by_cases stands : s.raft.state = .candidate
      · obtain ⟨-, old, -, led, -, nodes⟩ := (becomeLeader_takesOver stands defined).1.pointers
        rw [nodes, changes, if_pos stands, led]
        rfl
      · unfold handleInternalLocked at defined
        simp only [if_neg stands] at defined
        rw [eq_of_returned defined, changes, if_neg stands]
        rfl

/-- Every call makes its changes to the listing and no others; this ties the tables of this
module to the TCP server. -/
theorem step_nodes {call : Call} (stepped : machine.step s call = some effect) :
    effect.state.raft.table.nodes =
      (s.changes call).foldl Change.apply s.raft.table.nodes := by
  cases call with
  | newConnection nodeKey => exact addNode_nodes stepped
  | receive request sender => exact handleReceiveFromNodeLocked_nodes stepped
  | internal request node => exact handleInternalLocked_nodes stepped
  | ableToVote node able =>
      cases stepped
      rfl
  | raft event => exact (handle_sameMembers stepped).nodes

/-- The table of a TCP server is made by the changes of its calls, as those of the leader and of
the other servers are here. -/
theorem RunFrom.nodes {own : NodeIdentifierKey} {timing : Timing} {found : Found}
    {trace : List Step} {s : Server} (run : RunFrom own timing found trace s) :
    s.raft.table.nodes = (trace.flatMap fun t => t.before.changes t.event).foldl Change.apply
      (found.members own).table.nodes := by
  apply run.invariant fun trace s => s.raft.table.nodes =
    (trace.flatMap fun t => t.before.changes t.event).foldl Change.apply
      (found.members own).table.nodes
  · rfl
  · intro trace s call effect _ made stepped
    rw [step_nodes stepped, made, List.flatMap_append, List.foldl_append, List.flatMap_singleton]

end Server

end Tcp

end CppRaft
