import Mathlib.Data.Fintype.Basic
import CppRaft.Machine.Trace
import CppRaft.Tcp.Join

/-!
# Joins that overlap

Any number of new nodes join through any servers. The adder sends its keys under the
shared lock, adds the new node under the exclusive lock, and tells the nodes of its
table under the shared lock again; the messages arrive in any order. When everything
has arrived, all servers know each other exactly if no two joins crossed: each list
that is sent has every node that was announced by then, and each announcement goes to
every node that was sent a list without the announced one.
-/

namespace CppRaft

namespace Tcp

open Machine

/-- How far a node is with its join; `listed` and `added` name the adder. -/
inductive Phase (Key : Type) where
  | outside
  | down
  | listed (adder : Key)
  | added (adder : Key)
  | informed
  | running
  | rejected
  deriving DecidableEq

namespace Phase

variable {Key : Type}

/-- The node has a table of its own. -/
def hasTable : Phase Key → Bool
  | listed _ => true
  | added _ => true
  | informed => true
  | running => true
  | _ => false

/-- The adder has added the node. -/
def placed : Phase Key → Bool
  | added _ => true
  | informed => true
  | running => true
  | _ => false

/-- The adder has told the others about the node. -/
def announced : Phase Key → Bool
  | informed => true
  | running => true
  | _ => false

/-- A node that its adder has put into its table has a table itself. -/
theorem hasTable_of_placed {phase : Phase Key} (placed : phase.placed = true) :
    phase.hasTable = true := by
  cases phase <;> first | rfl | cases placed

/-- A node is only announced after it was put into the table of its adder. -/
theorem placed_of_announced {phase : Phase Key} (announced : phase.announced = true) :
    phase.placed = true := by
  cases phase <;> first | rfl | cases announced

end Phase

/-- `AddNode` on the keys of a table. -/
def addKey {Key : Type} [DecidableEq Key] (key : Key) (keys : List Key) : List Key :=
  if key ∈ keys then keys else keys ++ [key]

/-- The phases and tables of the nodes, the `newNode` frames on their way, and the accepted ones
that wait for a worker; both name the receiver first and then the new node. -/
structure Joins (Key : Type) where
  phase : Key → Phase Key
  table : Key → List Key
  frames : List (Key × Key)
  jobs : List (Key × Key)

/-- A part of a join, or of the treatment of a `newNode` frame. -/
inductive JoinEvent (Key : Type) where
  | beforeLock (node adder : Key)
  | locked (node : Key)
  | afterLock (node : Key)
  | addOwnNode (node : Key)
  | receive (server node : Key)
  | handle (server node : Key)
  deriving DecidableEq

namespace Joins

variable {Key : Type} [DecidableEq Key]

/-- Servers whose tables hold the same keys. -/
def start (servers keys : List Key) : Joins Key where
  phase := fun node =>
    if node ∈ servers then .running else if node ∈ keys then .down else .outside
  table := fun _ => keys
  frames := []
  jobs := []

/-- `HandleNewConnectionPrivate` before the exclusive lock: the new node adds the keys it is
sent. -/
def beforeLock (node adder : Key) (s : Joins Key) : Option (Joins Key) :=
  if s.phase node = .outside ∧ s.phase adder = .running then
    some { s with
      phase := Function.update s.phase node (.listed adder)
      table := Function.update s.table node
        ((s.table adder).foldl (fun keys key => addKey key keys) []) }
  else none

/-- `handleNewConnectionLocked`. -/
def locked (node : Key) (s : Joins Key) : Option (Joins Key) :=
  match s.phase node with
  | .listed adder =>
      if node ∈ s.table adder then
        some { s with phase := Function.update s.phase node .rejected }
      else
        some { s with
          phase := Function.update s.phase node (.added adder)
          table := Function.update s.table adder (addKey node (s.table adder)) }
  | _ => none

/-- `handleNewConnectionAfterLock` with `SendInformationToAllNodes`. -/
def afterLock (node : Key) (s : Joins Key) : Option (Joins Key) :=
  match s.phase node with
  | .added adder =>
      some { s with
        phase := Function.update s.phase node .informed
        frames := s.frames ++
          ((s.table adder).filter fun other => other ≠ node ∧ other ≠ adder).map (·, node) }
  | _ => none

/-- The end of `TryFindClusterThredSafe`, after which the threads of the new node run. -/
def addOwnNode (node : Key) (s : Joins Key) : Option (Joins Key) :=
  if s.phase node = .informed then
    some { s with
      phase := Function.update s.phase node .running
      table := Function.update s.table node (addKey node (s.table node)) }
  else none

/-- `raft_receive_fromAdder_newNode`: a node that is known is rejected, any other becomes a job. -/
def receive (server node : Key) (s : Joins Key) : Option (Joins Key) :=
  if (server, node) ∈ s.frames ∧ s.phase server = .running then
    some { s with
      frames := s.frames.erase (server, node)
      jobs := if node ∈ s.table server then s.jobs else s.jobs ++ [(server, node)] }
  else none

/-- `handleReceiveFromNodeLocked` for a `newNode` request. -/
def handle (server node : Key) (s : Joins Key) : Option (Joins Key) :=
  if (server, node) ∈ s.jobs then
    some { s with
      table := Function.update s.table server (addKey node (s.table server))
      jobs := s.jobs.erase (server, node) }
  else none

/-- The step an event takes. -/
def next (s : Joins Key) : JoinEvent Key → Option (Joins Key)
  | .beforeLock node adder => s.beforeLock node adder
  | .locked node => s.locked node
  | .afterLock node => s.afterLock node
  | .addOwnNode node => s.addOwnNode node
  | .receive server node => s.receive server node
  | .handle server node => s.handle server node

variable (Key) in
/-- The joins as a machine. -/
def machine : Machine (Joins Key) (JoinEvent Key) Empty where
  step := fun s event => (s.next event).map Effect.done

/-- One part of a join in a run. -/
abbrev Step (Key : Type) : Type :=
  Transition (Joins Key) (JoinEvent Key) Empty

/-- No join is under way and no message for a server. -/
def Quiet (s : Joins Key) : Prop :=
  (∀ node, s.phase node = .outside ∨ s.phase node = .down ∨ s.phase node = .running) ∧
    (∀ frame ∈ s.frames, s.phase frame.1 ≠ .running) ∧ s.jobs = []

/-- All servers hold the old keys and those of the nodes that joined. -/
def Complete (keys : List Key) (s : Joins Key) : Prop :=
  ∀ server, s.phase server = .running →
    ∀ key, key ∈ s.table server ↔ key ∈ keys ∨ s.phase key = .running

/-- Joins do not cross in a step: a list that is sent has every announced node, and an
announcement goes to every node whose table lacks the announced one. -/
def Uncrossed (s : Joins Key) : JoinEvent Key → Prop
  | .beforeLock _ adder => ∀ other, (s.phase other).announced = true → other ∈ s.table adder
  | .afterLock node =>
      ∀ adder, s.phase node = .added adder →
        ∀ other, (s.phase other).hasTable = true → other ≠ node →
          node ∈ s.table other ∨ other ∈ s.table adder
  | _ => True

/-- The defined steps. -/
inductive StepResult (s : Joins Key) : JoinEvent Key → Joins Key → Prop where
  | listed {node adder : Key} (outside : s.phase node = .outside)
      (serves : s.phase adder = .running) :
      StepResult s (.beforeLock node adder)
        { s with
          phase := Function.update s.phase node (.listed adder)
          table := Function.update s.table node
            ((s.table adder).foldl (fun keys key => addKey key keys) []) }
  | rejected {node adder : Key} (listed : s.phase node = .listed adder)
      (known : node ∈ s.table adder) :
      StepResult s (.locked node) { s with phase := Function.update s.phase node .rejected }
  | added {node adder : Key} (listed : s.phase node = .listed adder)
      (unknown : node ∉ s.table adder) :
      StepResult s (.locked node)
        { s with
          phase := Function.update s.phase node (.added adder)
          table := Function.update s.table adder (addKey node (s.table adder)) }
  | informed {node adder : Key} (added : s.phase node = .added adder) :
      StepResult s (.afterLock node)
        { s with
          phase := Function.update s.phase node .informed
          frames := s.frames ++
            ((s.table adder).filter fun other => other ≠ node ∧ other ≠ adder).map (·, node) }
  | joined {node : Key} (informed : s.phase node = .informed) :
      StepResult s (.addOwnNode node)
        { s with
          phase := Function.update s.phase node .running
          table := Function.update s.table node (addKey node (s.table node)) }
  | received {server node : Key} (sent : (server, node) ∈ s.frames)
      (serves : s.phase server = .running) :
      StepResult s (.receive server node)
        { s with
          frames := s.frames.erase (server, node)
          jobs := if node ∈ s.table server then s.jobs else s.jobs ++ [(server, node)] }
  | handled {server node : Key} (queued : (server, node) ∈ s.jobs) :
      StepResult s (.handle server node)
        { s with
          table := Function.update s.table server (addKey node (s.table server))
          jobs := s.jobs.erase (server, node) }

/-- Every step is one of `StepResult`; all that follows about steps is read off it. -/
theorem step_result {s : Joins Key} {event : JoinEvent Key} {effect : Effect (Joins Key) Empty}
    (stepped : (machine Key).step s event = some effect) : StepResult s event effect.state := by
  obtain ⟨s', next, rfl⟩ := Option.map_eq_some_iff.mp stepped
  cases event with
  | beforeLock node adder =>
      obtain ⟨⟨outside, serves⟩, ⟨⟩⟩ := Option.ite_none_right_eq_some.mp next
      exact .listed outside serves
  | locked node =>
      simp only [Joins.next, locked] at next
      split at next
      · rename_i adder listed
        split at next
        · cases next
          exact .rejected listed ‹_›
        · cases next
          exact .added listed ‹_›
      · cases next
  | afterLock node =>
      simp only [Joins.next, afterLock] at next
      split at next
      · cases next
        exact .informed ‹_›
      · cases next
  | addOwnNode node =>
      obtain ⟨informed, ⟨⟩⟩ := Option.ite_none_right_eq_some.mp next
      exact .joined informed
  | receive server node =>
      obtain ⟨⟨sent, serves⟩, ⟨⟩⟩ := Option.ite_none_right_eq_some.mp next
      exact .received sent serves
  | handle server node =>
      obtain ⟨queued, ⟨⟩⟩ := Option.ite_none_right_eq_some.mp next
      exact .handled queued

/-- A server knows a node, or will when its messages have arrived. -/
def Knows (s : Joins Key) (server node : Key) : Prop :=
  node ∈ s.table server ∨ (server, node) ∈ s.frames ∨ (server, node) ∈ s.jobs

/-- Everyone with a table knows every announced node, or will. -/
def AllKnown (s : Joins Key) : Prop :=
  ∀ node server, (s.phase node).announced = true → (s.phase server).hasTable = true →
    server ≠ node → s.Knows server node

section Facts

variable {s s' : Joins Key} {event : JoinEvent Key} {keys : List Key}

/-- A key that is added is there afterwards, whether or not it was there before. -/
theorem mem_addKey {key other : Key} {keys : List Key} :
    other ∈ addKey key keys ↔ other ∈ keys ∨ other = key := by
  unfold addKey
  split <;> grind

/-- A listing adds its keys to the table and takes none away. -/
theorem mem_foldl_addKey {key : Key} (received keys : List Key) :
    key ∈ received.foldl (fun keys key => addKey key keys) keys ↔ key ∈ keys ∨ key ∈ received := by
  induction received generalizing keys with
  | nil => simp
  | cons first rest ih => rw [List.foldl_cons, ih, mem_addKey, List.mem_cons, or_assoc]

/-- `addKey` is what `AddNode` does to the keys of a table. -/
theorem addKey_nodes (table : NodeTable Key) (key : Key) :
    addKey key table.nodes = ((table.addNode? key).getD table).nodes := by
  unfold addKey NodeTable.addNode?
  split <;> rfl

/-- The loop of the new node over the keys it received adds them one by one. -/
theorem nodes_addReceived (leaderIndex : Int) (i : ℕ) (received : List NodeIdentifierKey)
    (m : Members) :
    (addReceived leaderIndex i received m).table.nodes =
      received.foldl (fun keys key => addKey key keys) m.table.nodes := by
  induction received generalizing i m with
  | nil => rfl
  | cons key rest ih =>
      rw [addReceived, ih, List.foldl_cons, addKey_nodes]
      congr 1
      cases m.table.addNode? key with
      | none => rfl
      | some table =>
          simp only [Option.getD_some]
          split <;> rfl

namespace StepResult

/-- A node is announced by the last part of its request and by nothing else. -/
theorem announced_iff (step : StepResult s event s') (node : Key) :
    (s'.phase node).announced = true ↔
      (s.phase node).announced = true ∨ event = .afterLock node := by
  cases step <;> grind [Function.update_apply, Phase.announced]

/-- A node that is in the table of its adder stays placed. -/
theorem placed_of (step : StepResult s event s') {node : Key}
    (placed : (s.phase node).placed = true) : (s'.phase node).placed = true := by
  cases step <;> grind [Function.update_apply, Phase.placed]

/-- The locked part of the request of a new node places it. -/
theorem placed_of_locked {node adder : Key} (step : StepResult s (.locked node) s')
    (listed : s.phase node = .listed adder) (unknown : node ∉ s.table adder) :
    (s'.phase node).placed = true := by
  cases step <;> grind [Function.update_apply, Phase.placed]

/-- A worker only handles a job that is queued. -/
theorem queued_of_handle {server node : Key} (step : StepResult s (.handle server node) s') :
    (server, node) ∈ s.jobs := by
  cases step
  assumption

/-- A server adds itself after the answer of its adder. -/
theorem informed_of_addOwnNode {node : Key} (step : StepResult s (.addOwnNode node) s') :
    s.phase node = .informed := by
  cases step
  assumption

/-- A server runs once it has added itself, and not earlier. -/
theorem running_iff (step : StepResult s event s') (node : Key) :
    s'.phase node = .running ↔ s.phase node = .running ∨ event = .addOwnNode node := by
  cases step <;> grind [Function.update_apply]

/-- A server that is down stays down. -/
theorem down_of (step : StepResult s event s') {node : Key} (down : s.phase node = .down) :
    s'.phase node = .down := by
  cases step <;> grind [Function.update_apply]

/-- A node gets its listing from a server that runs. -/
theorem listed_imp (step : StepResult s event s') {node adder : Key}
    (listed : s'.phase node = .listed adder) :
    s.phase node = .listed adder ∨ s.phase adder = .running := by
  cases step <;> grind [Function.update_apply]

/-- A node becomes an added one by the step that puts it into the table of its adder. -/
theorem added_imp (step : StepResult s event s') {node adder : Key}
    (added : s'.phase node = .added adder) :
    s.phase node = .added adder ∨
      s.phase node = .listed adder ∧ s'.table adder = addKey node (s.table adder) := by
  cases step <;> grind [Function.update_apply]

/-- A server gets its table from a listing, and then has the keys that its adder had at that
moment. This is where a join can miss another one. -/
theorem hasTable_imp (step : StepResult s event s') {server : Key}
    (hasTable : (s'.phase server).hasTable = true) :
    (s.phase server).hasTable = true ∨
      ∃ adder, event = .beforeLock server adder ∧ s.phase server = .outside ∧
        s.phase adder = .running ∧ ∀ key, key ∈ s'.table server ↔ key ∈ s.table adder := by
  cases step <;> grind [Function.update_apply, Phase.hasTable, mem_foldl_addKey]

/-- What a step adds to a table: the node that its adder adds, the own node, or the node of a
job. -/
theorem mem_table_iff (step : StepResult s event s') {server : Key}
    (hasTable : (s.phase server).hasTable = true) (key : Key) :
    key ∈ s'.table server ↔ key ∈ s.table server ∨
      (event = .locked key ∧ s.phase key = .listed server ∧ key ∉ s.table server) ∨
      (event = .addOwnNode server ∧ key = server) ∨ event = .handle server key := by
  cases step <;> grind [Function.update_apply, Phase.hasTable, mem_addKey]

/-- A frame on its way was sent when the node was announced, to a server that the adder had
in its table. -/
theorem mem_frames_imp (step : StepResult s event s') {server key : Key}
    (sent : (server, key) ∈ s'.frames) : (server, key) ∈ s.frames ∨
      event = .afterLock key ∧ ∃ adder, s.phase key = .added adder ∧ server ∈ s.table adder := by
  cases step <;> grind

/-- A queued job comes from a frame that a running server received. -/
theorem mem_jobs_imp (step : StepResult s event s') {server key : Key}
    (queued : (server, key) ∈ s'.jobs) : (server, key) ∈ s.jobs ∨
      (server, key) ∈ s.frames ∧ s.phase server = .running := by
  cases step <;> grind

/-- Messages are neither lost nor made up: what a server knows of an announced node stays. -/
theorem knows_iff (step : StepResult s event s') {server node : Key}
    (announced : (s.phase node).announced = true)
    (hasTable : (s.phase server).hasTable = true) (other : server ≠ node) :
    s'.Knows server node ↔ s.Knows server node := by
  unfold Knows
  cases step <;>
    grind [Function.update_apply, mem_addKey, Phase.announced, Phase.hasTable]

end StepResult

/-- What holds however joins overlap: tables have the old keys and otherwise only nodes that their
adders have added, adders run, and messages are about announced nodes. -/
structure Inv (keys : List Key) (s : Joins Key) : Prop where
  base : ∀ server, (s.phase server).hasTable = true → ∀ key ∈ keys, key ∈ s.table server
  known : ∀ server, (s.phase server).hasTable = true →
    ∀ key ∈ s.table server, key ∈ keys ∨ (s.phase key).placed = true
  old : ∀ key ∈ keys, s.phase key = .running ∨ s.phase key = .down
  listedBy : ∀ node adder, s.phase node = .listed adder → s.phase adder = .running
  addedBy : ∀ node adder, s.phase node = .added adder →
    s.phase adder = .running ∧ node ∈ s.table adder
  own : ∀ server, s.phase server = .running → server ∈ s.table server
  framesSent : ∀ server key, (server, key) ∈ s.frames →
    (s.phase key).announced = true ∧ (server ∈ keys ∨ (s.phase server).placed = true)
  jobsSent : ∀ server key, (server, key) ∈ s.jobs →
    (s.phase key).announced = true ∧ s.phase server = .running

/-- The invariant holds of servers that know one another, and of keys whose servers are
down. -/
theorem inv_start {servers keys : List Key} (listed : ∀ server ∈ servers, server ∈ keys) :
    Inv keys (start servers keys) := by
  have phases : ∀ node, (start servers keys).phase node = .outside ∨
      (start servers keys).phase node = .down ∨
      (start servers keys).phase node = .running ∧ node ∈ keys := by
    intro node
    unfold start
    by_cases server : node ∈ servers
    · exact Or.inr (Or.inr ⟨if_pos server, listed node server⟩)
    · by_cases key : node ∈ keys
      · exact Or.inr (Or.inl ((if_neg server).trans (if_pos key)))
      · exact Or.inl ((if_neg server).trans (if_neg key))
  refine ⟨fun _ _ key member => member, fun _ _ key member => Or.inl member, ?_, ?_, ?_, ?_,
    fun _ _ absurdity => (nomatch absurdity), fun _ _ absurdity => (nomatch absurdity)⟩
  · intro key member
    unfold start
    by_cases server : key ∈ servers
    · exact Or.inl (if_pos server)
    · exact Or.inr ((if_neg server).trans (if_pos member))
  · intro node adder phase
    rcases phases node with other | other | ⟨other, -⟩ <;> cases other.symm.trans phase
  · intro node adder phase
    rcases phases node with other | other | ⟨other, -⟩ <;> cases other.symm.trans phase
  · intro server phase
    rcases phases server with other | other | ⟨-, member⟩
    · cases other.symm.trans phase
    · cases other.symm.trans phase
    · exact member

namespace Inv

omit [DecidableEq Key] in
/-- No table has a node before its adder has added it. -/
theorem notMem_of_listed (inv : Inv keys s) {node adder : Key}
    (listed : s.phase node = .listed adder) : node ∉ s.table adder := by
  intro member
  have hasTable : (s.phase adder).hasTable = true := by
    rw [inv.listedBy node adder listed]
    rfl
  rcases inv.known adder hasTable node member with old | placed
  · rcases inv.old node old with phase | phase <;> cases listed.symm.trans phase
  · rw [listed] at placed
    cases placed

omit [DecidableEq Key] in
/-- Nobody is sent a message before its adder has added it. -/
theorem not_sent_of_outside (inv : Inv keys s) {server : Key}
    (outside : s.phase server = .outside) (key : Key) :
    (server, key) ∉ s.frames ∧ (server, key) ∉ s.jobs := by
  constructor
  · intro sent
    rcases (inv.framesSent server key sent).2 with old | placed
    · rcases inv.old server old with phase | phase <;> cases outside.symm.trans phase
    · rw [outside] at placed
      cases placed
  · intro queued
    cases outside.symm.trans (inv.jobsSent server key queued).2

/-- A server that has a table keeps one. -/
theorem hasTable_of (inv : Inv keys s) (step : StepResult s event s') {server : Key}
    (hasTable : (s.phase server).hasTable = true) : (s'.phase server).hasTable = true := by
  have unknown : ∀ node adder, s.phase node = .listed adder → node ∉ s.table adder :=
    fun _ _ => inv.notMem_of_listed
  cases step <;> grind [Function.update_apply, Phase.hasTable]

/-- Every step keeps the invariant, one field at a time, each from the lemma above about
what the step can have done to the phase, the table or the messages that the field is about. -/
theorem step (inv : Inv keys s) (step : StepResult s event s') : Inv keys s' where
  base server hasTable key member := by
    rcases step.hasTable_imp hasTable with old | ⟨adder, -, -, serves, listed⟩
    · exact (step.mem_table_iff old key).mpr (Or.inl (inv.base server old key member))
    · exact (listed key).mpr (inv.base adder (serves ▸ rfl) key member)
  known server hasTable key member := by
    have kept : key ∈ keys ∨ (s.phase key).placed = true →
        key ∈ keys ∨ (s'.phase key).placed = true := Or.imp_right step.placed_of
    rcases step.hasTable_imp hasTable with old | ⟨adder, -, -, serves, listed⟩
    · rcases (step.mem_table_iff old key).mp member with here | ⟨rfl, listed, unknown⟩ |
        ⟨rfl, rfl⟩ | rfl
      · exact kept (inv.known server old key here)
      · exact Or.inr (step.placed_of_locked listed unknown)
      · exact Or.inr (((step.running_iff key).mpr (Or.inr rfl)) ▸ rfl)
      · exact kept (Or.inr (Phase.placed_of_announced
          (inv.jobsSent server key step.queued_of_handle).1))
    · exact kept (inv.known adder (serves ▸ rfl) key ((listed key).mp member))
  old key member :=
    (inv.old key member).imp (fun running => (step.running_iff key).mpr (Or.inl running))
      step.down_of
  listedBy node adder listed := by
    refine (step.running_iff adder).mpr (Or.inl ?_)
    exact (step.listed_imp listed).elim (inv.listedBy node adder) id
  addedBy node adder added := by
    rcases step.added_imp added with old | ⟨listed, table⟩
    · obtain ⟨serves, member⟩ := inv.addedBy node adder old
      exact ⟨(step.running_iff adder).mpr (Or.inl serves),
        (step.mem_table_iff (serves ▸ rfl) node).mpr (Or.inl member)⟩
    · rw [table]
      exact ⟨(step.running_iff adder).mpr (Or.inl (inv.listedBy node adder listed)),
        mem_addKey.mpr (Or.inr rfl)⟩
  own server running := by
    rcases (step.running_iff server).mp running with old | rfl
    · exact (step.mem_table_iff (old ▸ rfl) server).mpr (Or.inl (inv.own server old))
    · exact (step.mem_table_iff (step.informed_of_addOwnNode ▸ rfl) server).mpr
        (Or.inr (Or.inr (Or.inl ⟨rfl, rfl⟩)))
  framesSent server key sent := by
    rcases step.mem_frames_imp sent with old | ⟨rfl, adder, added, listed⟩
    · obtain ⟨announced, addressed⟩ := inv.framesSent server key old
      exact ⟨(step.announced_iff key).mpr (Or.inl announced), addressed.imp_right step.placed_of⟩
    · have serves := (inv.addedBy key adder added).1
      exact ⟨(step.announced_iff key).mpr (Or.inr rfl),
        (inv.known adder (serves ▸ rfl) server listed).imp_right step.placed_of⟩
  jobsSent server key queued := by
    have kept : (s.phase key).announced = true ∧ s.phase server = .running →
        (s'.phase key).announced = true ∧ s'.phase server = .running :=
      And.imp (fun announced => (step.announced_iff key).mpr (Or.inl announced))
        fun running => (step.running_iff server).mpr (Or.inl running)
    rcases step.mem_jobs_imp queued with old | ⟨sent, running⟩
    · exact kept (inv.jobsSent server key old)
    · exact kept ⟨(inv.framesSent server key sent).1, running⟩

/-- A step leaves everyone informed exactly if everyone was before it and no joins cross in
it. They cross in a listing that lacks an announced node, and in an announcement that does
not go to a server whose table lacks the node. -/
theorem allKnown_iff (inv : Inv keys s) (step : StepResult s event s') :
    s'.AllKnown ↔ s.AllKnown ∧ s.Uncrossed event := by
  constructor
  · intro all
    have before : s.AllKnown := fun node server announced hasTable other =>
      (step.knows_iff announced hasTable other).mp
        (all node server ((step.announced_iff node).mpr (Or.inl announced))
          (inv.hasTable_of step hasTable) other)
    refine ⟨before, ?_⟩
    cases step with
    | @listed node adder outside serves =>
        intro other announced
        have different : node ≠ other := by
          rintro rfl
          rw [outside] at announced
          cases announced
        have known := all other node (by simpa [different.symm] using announced)
          (by simp [Phase.hasTable]) different
        obtain ⟨unsent, unqueued⟩ := inv.not_sent_of_outside outside other
        rcases known with here | sent | queued
        · simpa [mem_foldl_addKey] using here
        · exact absurd sent unsent
        · exact absurd queued unqueued
    | @informed node adder added =>
        intro adder' added' other hasTable different
        cases added.symm.trans added'
        have silent : (s.phase node).announced = false := by rw [added]; rfl
        have known := all node other (by simp [Phase.announced])
          (by simpa [different] using hasTable) different
        rcases known with here | sent | queued
        · exact Or.inl here
        · rcases List.mem_append.mp sent with old | new
          · cases silent.symm.trans (inv.framesSent other node old).1
          · grind
        · cases silent.symm.trans (inv.jobsSent other node queued).1
    | rejected | added | joined | received | handled => trivial
  · rintro ⟨all, uncrossed⟩ node server announced hasTable other
    rcases (step.announced_iff node).mp announced with old | rfl
    · rcases step.hasTable_imp hasTable with oldTable | ⟨adder, rfl, -, -, listed⟩
      · exact (step.knows_iff old oldTable other).mpr (all node server old oldTable other)
      · exact Or.inl ((listed node).mpr (uncrossed node old))
    · cases step with
      | @informed _ adder added =>
          have oldTable : (s.phase server).hasTable = true := by simpa [other] using hasTable
          rcases uncrossed adder added server oldTable other with here | member
          · exact Or.inl here
          · by_cases same : server = adder
            · exact Or.inl (same ▸ (inv.addedBy node adder added).2)
            · exact Or.inr (Or.inl (List.mem_append_right _ (by simp [member, other, same])))

/-- When nothing is under way, everyone is informed exactly if all tables are complete:
there are no frames and no jobs that could still bring a key. -/
theorem complete_iff (inv : Inv keys s) (quiet : s.Quiet) : s.Complete keys ↔ s.AllKnown := by
  obtain ⟨phases, frames, jobs⟩ := quiet
  have hasTable : ∀ node, (s.phase node).hasTable = true → s.phase node = .running := by
    intro node hasTable
    rcases phases node with phase | phase | phase
    · rw [phase] at hasTable
      cases hasTable
    · rw [phase] at hasTable
      cases hasTable
    · exact phase
  have placed : ∀ node, (s.phase node).placed = true → s.phase node = .running := by
    intro node placed
    exact hasTable node (Phase.hasTable_of_placed placed)
  constructor
  · intro complete node server announced hasTable' _
    exact Or.inl ((complete server (hasTable server hasTable') node).mpr
      (Or.inr (placed node (Phase.placed_of_announced announced))))
  · intro all server running key
    have serves : (s.phase server).hasTable = true := running ▸ rfl
    constructor
    · exact fun member => (inv.known server serves key member).imp_right (placed key)
    · rintro (old | joined)
      · exact inv.base server serves key old
      · by_cases same : server = key
        · exact same ▸ inv.own server running
        · rcases all key server (joined ▸ rfl) serves same with here | sent | queued
          · exact here
          · exact absurd running (frames _ sent)
          · rw [jobs] at queued
            cases queued

end Inv

/-- After joins of any number of new nodes, everything that was sent having arrived, all servers
hold the old keys and the new ones exactly if no joins crossed. -/
theorem joins_complete_iff {servers keys : List Key} (listed : ∀ server ∈ servers, server ∈ keys)
    {trace : List (Step Key)} {s : Joins Key}
    (run : (machine Key).Run (start servers keys) trace s) (quiet : s.Quiet) :
    s.Complete keys ↔ ∀ t ∈ trace, t.before.Uncrossed t.event := by
  have reached : ∀ {trace s}, (machine Key).Run (start servers keys) trace s → Inv keys s :=
    fun run => run.invariant (fun _ s => Inv keys s) (inv_start listed)
      fun _ inv stepped => inv.step (step_result stepped)
  have begun : (start servers keys).AllKnown := by
    intro node server announced _ _
    refine Or.inl ?_
    have running : (start servers keys).phase node = .running := by
      unfold start at announced ⊢
      grind [Phase.announced]
    exact (inv_start listed).own node running
  rw [(reached run).complete_iff quiet,
    run.last_iff (I := AllKnown) (P := fun t => t.before.Uncrossed t.event)
      fun run stepped => (reached run).allKnown_iff (step_result stepped)]
  exact and_iff_right begun

end Facts

section Finite

variable [Fintype Key]

instance (s : Joins Key) : Decidable s.Quiet :=
  inferInstanceAs (Decidable ((∀ node, s.phase node = .outside ∨ s.phase node = .down ∨
    s.phase node = .running) ∧ (∀ frame ∈ s.frames, s.phase frame.1 ≠ .running) ∧ s.jobs = []))

instance (keys : List Key) (s : Joins Key) : Decidable (s.Complete keys) :=
  inferInstanceAs (Decidable (∀ server, s.phase server = .running →
    ∀ key, key ∈ s.table server ↔ key ∈ keys ∨ s.phase key = .running))

instance (s : Joins Key) (event : JoinEvent Key) : Decidable (s.Uncrossed event) := by
  unfold Uncrossed
  split <;> infer_instance

end Finite

/-- Two nodes join through one adder, one after the other. -/
def inTurn (adder first second : Key) : List (JoinEvent Key) :=
  [.beforeLock first adder, .locked first, .afterLock first, .addOwnNode first,
    .beforeLock second adder, .locked second, .afterLock second, .addOwnNode second,
    .receive first second, .handle first second]

/-- Two nodes that join one after the other leave complete tables. -/
theorem joins_complete_inTurn :
    ((machine (Fin 3)).stateOf (start [0] [0]) (inTurn 0 1 2)).Quiet ∧
      ((machine (Fin 3)).stateOf (start [0] [0]) (inTurn 0 1 2)).Complete [0] := by
  have run := run_traceOf (machine (Fin 3)) (start [0] [0]) (inTurn 0 1 2) (by decide)
  have quiet : ((machine (Fin 3)).stateOf (start [0] [0]) (inTurn 0 1 2)).Quiet := by decide
  exact ⟨quiet, (joins_complete_iff (by decide) run quiet).mpr (by decide)⟩

/-- Two nodes join through one adder, which has sent both the same list before it adds one. -/
def crossing (adder first second : Key) : List (JoinEvent Key) :=
  [.beforeLock first adder, .beforeLock second adder, .locked first, .afterLock first,
    .addOwnNode first, .locked second, .afterLock second, .addOwnNode second,
    .receive first second, .handle first second]

/-- The second node never hears of the first. -/
theorem crossing_join_lost :
    ∃ trace s, (machine (Fin 3)).Run (start [0] [0]) trace s ∧
      trace.map Transition.event = crossing 0 1 2 ∧ s.Quiet ∧
      (∀ node, s.phase node = .running) ∧ s.table 0 = [0, 1, 2] ∧ s.table 1 = [0, 1, 2] ∧
      s.table 2 = [0, 2] :=
  ⟨_, _, run_traceOf (machine (Fin 3)) (start [0] [0]) (crossing 0 1 2) (by decide), rfl,
    by decide⟩

end Joins

end Tcp

end CppRaft
