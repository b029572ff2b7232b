import Mathlib.Data.Finset.Card
import CppRaft.Machine.Trace

/-!
# Waiting for the nodes

`FunctionForMultiRcv`, the loop of a receiving thread. A pass puts the sockets of the other nodes
and an own socket, by which the thread is interrupted, into the sets of a `select`, and then goes
through the nodes again until it has found as many sockets as `select` has counted. The nodes are
not locked in between, and `select` also counts the own socket and the exceptional ones, so that
the count is not the number of nodes to receive from. Even so the loop leaves no node out that
`select` has found readable, up to the first one whose handler throws: the exception ends the pass,
and the nodes after that one are left to the next `select`. The socket that the loop means to
ignore after an error is never one of a node.
-/

namespace CppRaft

namespace Tcp

open Machine

variable {Node : Type} [DecidableEq Node]

/-- What a pass meets: `m_nWork`, the own socket, the nodes with their sockets when the sets are
filled, what `select` returns and leaves in the sets, `m_nWork` and the nodes with their sockets
afterwards, and the nodes whose handler throws. -/
structure ReceivePass (Node : Type) where
  work : Bool
  interrupt : Int
  listed : List (Node × Int)
  selectReturn : Int
  readable : Finset Int
  exceptional : Finset Int
  workAfter : Bool
  present : List (Node × Int)
  throws : Node → Bool

/-- What a pass does: it sleeps, calls `select`, and receives from nodes. -/
inductive ReceiveAction (Node : Type) where
  | sleep
  | select (nfds : Int) (rFds eFds : Finset Int)
  | receive (node : Node)

/-- The variables of the loop that outlive a pass, and whether the thread has left it. `nMax` is
not initialised. -/
structure ReceiveLoop where
  socketToIgnore : Int
  max : Option Int
  ended : Bool

/-- The two sets, the number of sockets in them, and `nMax`. -/
structure FdSets where
  rFds : Finset Int
  eFds : Finset Int
  countInFd : ℕ
  max : Option Int

namespace FdSets

/-- The sets with the own socket, if there is one. -/
def withInterrupt (interrupt : Int) (max : Option Int) : FdSets :=
  if 0 < interrupt then ⟨∅, {interrupt}, 1, some interrupt⟩ else ⟨∅, ∅, 0, max⟩

/-- Put the socket of a node into both sets. Comparing it with an `nMax` that was never set has no
meaning. -/
def add (socket : Int) (sets : FdSets) : Option FdSets :=
  sets.max.map fun max =>
    ⟨insert socket sets.rFds, insert socket sets.eFds, sets.countInFd + 1,
      some (if max < socket then socket else max)⟩

/-- The loop over the nodes that fills the sets. -/
def fill (thisNode : Option Node) (socketToIgnore : Int) :
    List (Node × Int) → FdSets → Option FdSets
  | [], sets => some sets
  | (node, socket) :: nodes, sets =>
      if some node ≠ thisNode ∧ 0 < socket ∧ socket ≠ socketToIgnore then
        (sets.add socket).bind (fill thisNode socketToIgnore nodes)
      else fill thisNode socketToIgnore nodes sets

end FdSets

namespace ReceiveLoop

/-- The loop over the nodes that receives from them, with `nSocketsFound`. An exception leaves it
after the node whose handler threw. -/
def serve (thisNode : Option Node) (pass : ReceivePass Node) :
    List (Node × Int) → (socketsFound : Int) → List Node
  | [], _ => []
  | (node, socket) :: nodes, socketsFound =>
      if socketsFound < pass.selectReturn then
        if some node ≠ thisNode then
          let isReadable := 0 < socket ∧ socket ∈ pass.readable
          let isExceptional := 0 < socket ∧ socket ∈ pass.exceptional
          let socketsFound := if isReadable then socketsFound + 1 else socketsFound
          let socketsFound := if isExceptional then socketsFound + 1 else socketsFound
          if isReadable then
            node :: if pass.throws node then [] else serve thisNode pass nodes socketsFound
          else serve thisNode pass nodes socketsFound
        else serve thisNode pass nodes socketsFound
      else []

/-- One pass of `FunctionForMultiRcv`, whether it ends in the loop or in the `catch`. -/
def pass (thisNode : Option Node) (s : ReceiveLoop) (pass : ReceivePass Node) :
    Option (Effect ReceiveLoop (ReceiveAction Node)) :=
  if s.ended then none
  else if pass.work then do
    let sets ← FdSets.fill thisNode s.socketToIgnore pass.listed
      (.withInterrupt pass.interrupt s.max)
    -- `nLastSocket` is set to -1 in each pass, before `select`, and to a socket only after it.
    let lastSocket : Int := -1
    if sets.countInFd < 1 then some ⟨{ s with max := sets.max }, [.sleep]⟩
    else
      let nfds := (← sets.max) + 1
      let called := .select nfds sets.rFds sets.eFds
      if pass.workAfter then
        let socketToIgnore := if pass.selectReturn < 0 then lastSocket else -1
        some ⟨⟨socketToIgnore, some nfds, false⟩,
          called :: (serve thisNode pass pass.present 0).map ReceiveAction.receive⟩
      else some ⟨{ s with max := some nfds, ended := true }, [called]⟩
  else some ⟨{ s with ended := true }, []⟩

/-- A receiving thread as a machine. -/
def machine (thisNode : Option Node) :
    Machine ReceiveLoop (ReceivePass Node) (ReceiveAction Node) where
  step := ReceiveLoop.pass thisNode

/-- The thread when it enters the loop. -/
def entered : ReceiveLoop :=
  ⟨-1, none, false⟩

/-- One pass of a run. -/
abbrev Step (Node : Type) : Type :=
  Transition ReceiveLoop (ReceivePass Node) (ReceiveAction Node)

/-- The nodes of a list that the thread can hear: the other ones with an open socket. -/
def heard (thisNode : Option Node) (nodes : List (Node × Int)) : List (Node × Int) :=
  nodes.filter fun entry => decide (some entry.1 ≠ thisNode ∧ 0 < entry.2)

/-- The sockets that `select` is to wait for. -/
def watched (thisNode : Option Node) (pass : ReceivePass Node) : Finset Int :=
  ((heard thisNode pass.listed).map Prod.snd).toFinset

/-- The own socket, if there is one. -/
def ownSocket (pass : ReceivePass Node) : Finset Int :=
  if 0 < pass.interrupt then {pass.interrupt} else ∅

/-- What `select` promises: it fails, or it leaves some of the sockets in the sets and returns
their number. -/
def Answers (pass : ReceivePass Node) (rFds eFds : Finset Int) : Prop :=
  pass.selectReturn < 0 ∨
    pass.readable ⊆ rFds ∧ pass.exceptional ⊆ eFds ∧
      pass.selectReturn = pass.readable.card + pass.exceptional.card

/-- The nodes that are to be received from, in the order of the list. -/
def readable (thisNode : Option Node) (pass : ReceivePass Node) : List Node :=
  if pass.selectReturn < 0 then []
  else ((heard thisNode pass.present).filter fun entry => entry.2 ∈ pass.readable).map Prod.fst

/-- A list up to the first node whose handler throws, and with it. -/
def untilThrown (throws : Node → Bool) : List Node → List Node
  | [] => []
  | node :: nodes => node :: if throws node then [] else untilThrown throws nodes

/-- The nodes that a pass receives from: none once `m_nWork` is zero. -/
def received (thisNode : Option Node) (pass : ReceivePass Node) : List Node :=
  if pass.workAfter then untilThrown pass.throws (readable thisNode pass) else []

omit [DecidableEq Node] in
/-- Without an exception nothing is left out. -/
theorem untilThrown_eq_self {throws : Node → Bool} {nodes : List Node}
    (none : ∀ node ∈ nodes, throws node = false) : untilThrown throws nodes = nodes := by
  induction nodes with
  | nil => rfl
  | cons node nodes ih =>
      obtain ⟨here, rest⟩ := List.forall_mem_cons.mp none
      rw [untilThrown, here, ih rest]
      rfl

variable {thisNode : Option Node} {pass : ReceivePass Node}

/-- The loop over the nodes takes a node that the thread can hear. -/
theorem heard_cons_of_heard {node : Node} {socket : Int} (nodes : List (Node × Int))
    (other : some node ≠ thisNode) (opened : 0 < socket) :
    heard thisNode ((node, socket) :: nodes) = (node, socket) :: heard thisNode nodes :=
  List.filter_cons_of_pos (decide_eq_true ⟨other, opened⟩)

/-- The loop skips the own node and nodes without an open socket. -/
theorem heard_cons_of_not {node : Node} {socket : Int} (nodes : List (Node × Int))
    (unheard : ¬(some node ≠ thisNode ∧ 0 < socket)) :
    heard thisNode ((node, socket) :: nodes) = heard thisNode nodes :=
  List.filter_cons_of_neg (by simpa using unheard)

/-- The sockets of some nodes have been put into the sets. -/
structure Fills (nodes : List (Node × Int)) (sets sets' : FdSets) : Prop where
  rFds : sets'.rFds = sets.rFds ∪ (nodes.map Prod.snd).toFinset
  eFds : sets'.eFds = sets.eFds ∪ (nodes.map Prod.snd).toFinset
  countInFd : sets'.countInFd = sets.countInFd + nodes.length
  max : ∀ bound ∈ sets.max, ∃ top, sets'.max = some top ∧ bound ≤ top
  above : ∀ entry ∈ nodes, ∃ top, sets'.max = some top ∧ entry.2 ≤ top

omit [DecidableEq Node] in
/-- One node more. -/
theorem Fills.cons {node : Node} {socket max : Int} {nodes : List (Node × Int)}
    {sets sets' : FdSets} (known : sets.max = some max)
    (fills : Fills nodes
      ⟨insert socket sets.rFds, insert socket sets.eFds, sets.countInFd + 1,
        some (if max < socket then socket else max)⟩ sets') :
    Fills ((node, socket) :: nodes) sets sets' := by
  obtain ⟨top, found, above⟩ := fills.max _ rfl
  refine ⟨?_, ?_, ?_, ?_, List.forall_mem_cons.mpr ⟨⟨top, found, ?_⟩, fills.above⟩⟩
  · rw [fills.rFds, List.map_cons, List.toFinset_cons, Finset.insert_union, Finset.union_insert]
  · rw [fills.eFds, List.map_cons, List.toFinset_cons, Finset.insert_union, Finset.union_insert]
  · rw [fills.countInFd, List.length_cons, Nat.add_right_comm, Nat.add_assoc]
  · intro bound old
    obtain rfl : max = bound := Option.some.inj (known.symm.trans old)
    refine ⟨top, found, ?_⟩
    split at above <;> omega
  · show socket ≤ top
    split at above <;> omega

/-- Filling the sets puts the sockets of the heard nodes into both of them, and makes `nMax`
the largest one. -/
theorem fills_of_fill {nodes : List (Node × Int)} {sets sets' : FdSets}
    (filled : FdSets.fill thisNode (-1) nodes sets = some sets') :
    Fills (heard thisNode nodes) sets sets' := by
  induction nodes generalizing sets with
  | nil =>
      cases filled
      refine ⟨?_, ?_, rfl, fun bound found => ⟨bound, found, Int.le_refl _⟩, List.forall_mem_nil _⟩
      · exact (Finset.union_empty _).symm
      · exact (Finset.union_empty _).symm
  | cons entry nodes ih =>
      obtain ⟨node, socket⟩ := entry
      rw [FdSets.fill] at filled
      by_cases hears : some node ≠ thisNode ∧ 0 < socket
      · rw [if_pos ⟨hears.1, hears.2, by omega⟩] at filled
        obtain ⟨added, adds, filled⟩ := Option.bind_eq_some_iff.mp filled
        obtain ⟨max, known, rfl⟩ := Option.map_eq_some_iff.mp adds
        rw [heard_cons_of_heard nodes hears.1 hears.2]
        exact (ih filled).cons known
      · rw [if_neg fun test => hears ⟨test.1, test.2.1⟩] at filled
        rw [heard_cons_of_not nodes hears]
        exact ih filled

section Count

variable (pass) in
/-- How many sockets `select` has found at some nodes. -/
def bits (nodes : List (Node × Int)) : ℕ :=
  nodes.countP (fun entry => entry.2 ∈ pass.readable) +
    nodes.countP (fun entry => entry.2 ∈ pass.exceptional)

omit [DecidableEq Node] in
/-- What `select` has found is counted node by node, as `nSocketsFound` does. -/
theorem bits_cons (node : Node) (socket : Int) (nodes : List (Node × Int)) :
    bits pass ((node, socket) :: nodes) = bits pass nodes +
      (if socket ∈ pass.readable then 1 else 0) + if socket ∈ pass.exceptional then 1 else 0 := by
  simp only [bits, List.countP_cons, decide_eq_true_eq]
  omega

omit [DecidableEq Node] in
/-- Where `select` has found nothing there is nothing to receive. -/
theorem filter_of_bits_eq_zero {nodes : List (Node × Int)} (none : bits pass nodes = 0) :
    nodes.filter (fun entry => entry.2 ∈ pass.readable) = [] := by
  have quiet := (Nat.add_eq_zero_iff.mp none).1
  rw [List.countP_eq_zero] at quiet
  exact List.filter_eq_nil_iff.mpr quiet

/-- The loop receives from the readable nodes, up to the first that throws, as long as `select` has
counted at least the sockets that it has found and those that are still to come. -/
theorem serve_eq_filter {nodes : List (Node × Int)} {socketsFound : Int}
    (enough : socketsFound + bits pass (heard thisNode nodes) ≤ pass.selectReturn) :
    serve thisNode pass nodes socketsFound = untilThrown pass.throws
      (((heard thisNode nodes).filter fun entry => entry.2 ∈ pass.readable).map Prod.fst) := by
  induction nodes generalizing socketsFound with
  | nil => rfl
  | cons entry nodes ih =>
      obtain ⟨node, socket⟩ := entry
      by_cases goes : socketsFound < pass.selectReturn
      · rw [serve, if_pos goes]
        by_cases hears : some node ≠ thisNode ∧ 0 < socket
        · rw [heard_cons_of_heard nodes hears.1 hears.2] at enough ⊢
          rw [bits_cons] at enough
          simp only [if_pos hears.1, hears.2, true_and, List.filter_cons, decide_eq_true_eq]
          -- Each set that has the socket counts it once.
          by_cases found : socket ∈ pass.readable <;>
            by_cases problem : socket ∈ pass.exceptional <;>
            simp only [found, problem, if_true, if_false] at enough ⊢ <;>
            rw [ih (by push_cast at enough; omega)] <;> rfl
        · rw [heard_cons_of_not nodes hears] at enough ⊢
          rw [← ih enough]
          by_cases other : some node ≠ thisNode
          · have closed : ¬0 < socket := fun opened => hears ⟨other, opened⟩
            simp only [if_pos other, closed, false_and, if_false]
          · rw [if_neg other]
      · have none : bits pass (heard thisNode ((node, socket) :: nodes)) = 0 := by omega
        rw [serve, if_neg goes, filter_of_bits_eq_zero none, List.map_nil, untilThrown]

omit [DecidableEq Node] in
/-- Nodes with different sockets have at most as many in a set as it has elements. -/
theorem countP_le_card {nodes : List (Node × Int)} (distinct : (nodes.map Prod.snd).Nodup)
    (sockets : Finset Int) : nodes.countP (fun entry => entry.2 ∈ sockets) ≤ sockets.card := by
  have counted : nodes.countP (fun entry => entry.2 ∈ sockets) =
      ((nodes.map Prod.snd).filter (· ∈ sockets)).length := by
    rw [← List.countP_eq_length_filter, List.countP_map]
    rfl
  rw [counted, ← List.toFinset_card_of_nodup (distinct.filter _)]
  refine Finset.card_le_card fun socket member => ?_
  simpa using (List.mem_filter.mp (List.mem_toFinset.mp member)).2

/-- A pass receives from the readable nodes, up to the first that throws, whatever else `select` has
counted. -/
theorem serve_eq_readable {rFds eFds : Finset Int} (answers : Answers pass rFds eFds)
    (distinct : ((heard thisNode pass.present).map Prod.snd).Nodup) :
    serve thisNode pass pass.present 0 = untilThrown pass.throws (readable thisNode pass) := by
  rw [readable]
  by_cases failed : pass.selectReturn < 0
  · rw [if_pos failed]
    cases pass.present with
    | nil => rfl
    | cons entry nodes => rw [serve, if_neg (by omega), untilThrown]
  · obtain ⟨-, -, counted⟩ := answers.resolve_left failed
    have read := countP_le_card distinct pass.readable
    have problems := countP_le_card distinct pass.exceptional
    rw [if_neg failed, serve_eq_filter]
    rw [bits, counted]
    omega

end Count

/-- What a pass does: it leaves the loop, sleeps, or calls `select`, after which it leaves the loop
or receives. -/
theorem pass_cases {s : ReceiveLoop} {effect : Effect ReceiveLoop (ReceiveAction Node)}
    (ignores : s.socketToIgnore = -1) (passed : ReceiveLoop.pass thisNode s pass = some effect) :
    pass.work = false ∧ effect = ⟨{ s with ended := true }, []⟩ ∨
    pass.work = true ∧ ∃ sets,
      Fills (heard thisNode pass.listed) (.withInterrupt pass.interrupt s.max) sets ∧
      (sets.countInFd = 0 ∧ effect.state.socketToIgnore = -1 ∧ effect.emitted = [.sleep] ∨
        ∃ top, sets.max = some top ∧ effect.state.socketToIgnore = -1 ∧
          effect.emitted = .select (top + 1) sets.rFds sets.eFds ::
            (if pass.workAfter then serve thisNode pass pass.present 0 else []).map
              ReceiveAction.receive) := by
  unfold ReceiveLoop.pass at passed
  split at passed
  · cases passed
  · split at passed
    case isTrue works =>
      rw [ignores] at passed
      obtain ⟨sets, filled, passed⟩ := Option.bind_eq_some_iff.mp passed
      refine Or.inr ⟨works, sets, fills_of_fill filled, ?_⟩
      simp only at passed
      split at passed
      · cases passed
        exact Or.inl ⟨Nat.lt_one_iff.mp ‹_›, rfl, rfl⟩
      · obtain ⟨top, known, passed⟩ := Option.bind_eq_some_iff.mp passed
        rw [ite_self] at passed
        refine Or.inr ⟨top, known, ?_⟩
        split at passed
        · cases passed
          exact ⟨rfl, by rw [if_pos ‹_›]⟩
        · cases passed
          exact ⟨rfl, by rw [if_neg ‹_›]; rfl⟩
    case isFalse stops =>
      cases passed
      exact Or.inl ⟨Bool.not_eq_true _ ▸ stops, rfl⟩

/-- The socket to ignore is never one of a node. -/
theorem socketToIgnore_of_run {trace : List (Step Node)} {s : ReceiveLoop}
    (run : (machine thisNode).Run entered trace s) : s.socketToIgnore = -1 := by
  refine Run.invariant (fun _ s => s.socketToIgnore = -1) rfl ?_ run
  intro trace s pass effect _ ignores passed
  obtain ⟨-, rfl⟩ | ⟨-, sets, -, ⟨-, same, -⟩ | ⟨top, -, same, -⟩⟩ := pass_cases ignores passed
  · exact ignores
  · exact same
  · exact same

omit [DecidableEq Node] in
/-- The own socket is only watched for exceptions. -/
theorem rFds_withInterrupt (interrupt : Int) (max : Option Int) :
    (FdSets.withInterrupt interrupt max).rFds = ∅ := by
  unfold FdSets.withInterrupt
  split <;> rfl

omit [DecidableEq Node] in
/-- There is at most one own socket. -/
theorem mem_ownSocket {socket : Int} :
    socket ∈ ownSocket pass ↔ 0 < pass.interrupt ∧ socket = pass.interrupt := by
  unfold ownSocket
  split <;> simp [*]

omit [DecidableEq Node] in
/-- Before the nodes, the set for exceptions holds the own socket. -/
theorem eFds_withInterrupt (max : Option Int) :
    (FdSets.withInterrupt pass.interrupt max).eFds = ownSocket pass := by
  unfold FdSets.withInterrupt ownSocket
  split <;> rfl

/-- In every pass of every run of a receiving thread, if the pass finds `m_nWork` set, `select` is
called with the sockets of all the other nodes, and with a number above each of them, unless there
are none. The thread then receives from the nodes that are readable, from each of them once and in
their order, up to the first whose handler throws; from all of them if none does; and from none of
them if `m_nWork` was cleared meanwhile. It makes no difference what `select` has counted besides
and how the nodes have changed since. -/
theorem receives_every_readable {trace : List (Step Node)} {s : ReceiveLoop}
    (run : (machine thisNode).Run entered trace s) {t : Step Node} (member : t ∈ trace)
    (answers : ∀ nfds rFds eFds, .select nfds rFds eFds ∈ t.emitted → Answers t.event rFds eFds)
    (distinct : ((heard thisNode t.event.present).map Prod.snd).Nodup) :
    (t.event.work = false ∧ t.emitted = [] ∨ t.event.work = true ∧
      ((watched thisNode t.event = ∅ ∧ ownSocket t.event = ∅ ∧ t.emitted = [.sleep]) ∨
      ∃ nfds, t.emitted =
          .select nfds (watched thisNode t.event) (ownSocket t.event ∪ watched thisNode t.event) ::
            (received thisNode t.event).map ReceiveAction.receive ∧
        ∀ socket ∈ ownSocket t.event ∪ watched thisNode t.event, socket < nfds)) ∧
    (t.event.workAfter = true →
      (∀ node ∈ readable thisNode t.event, t.event.throws node = false) →
        received thisNode t.event = readable thisNode t.event) := by
  refine ⟨?_, fun works none => by rw [received, if_pos works, untilThrown_eq_self none]⟩
  obtain ⟨past, rest, rfl⟩ := List.append_of_mem member
  obtain ⟨earlier, stepped⟩ := run.at_split
  obtain ⟨stopped, effect⟩ | ⟨works, sets, fills, ⟨none, -, emitted⟩ | ⟨top, known, -, emitted⟩⟩ :=
    pass_cases (socketToIgnore_of_run earlier) stepped
  · exact Or.inl ⟨stopped, congrArg Effect.emitted effect⟩
  · rw [fills.countInFd, Nat.add_eq_zero_iff, List.length_eq_zero_iff] at none
    obtain ⟨silent, unheard⟩ := none
    refine Or.inr ⟨works, Or.inl ⟨?_, ?_, emitted⟩⟩
    · rw [watched, unheard]
      rfl
    · rw [FdSets.withInterrupt] at silent
      split at silent
      · cases silent
      · exact if_neg ‹_›
  · have called : t.emitted = _ := emitted
    have read : sets.rFds = watched thisNode t.event := by
      rw [fills.rFds, rFds_withInterrupt, Finset.empty_union, watched]
    have problems : sets.eFds = ownSocket t.event ∪ watched thisNode t.event := by
      rw [fills.eFds, eFds_withInterrupt, watched]
    have answered := answers (top + 1) sets.rFds sets.eFds
      (called ▸ List.mem_cons_self)
    rw [serve_eq_readable answered distinct, read, problems] at called
    refine Or.inr ⟨works, Or.inr ⟨top + 1, called, fun socket listens =>
      Int.lt_add_one_iff.mpr ?_⟩⟩
    rcases Finset.mem_union.mp listens with own | other
    · obtain ⟨opened, rfl⟩ := mem_ownSocket.mp own
      obtain ⟨bound, same, above⟩ := fills.max t.event.interrupt (by
        rw [FdSets.withInterrupt, if_pos opened, Option.mem_some])
      exact Option.some.inj (known.symm.trans same) ▸ above
    · obtain ⟨entry, hears, rfl⟩ := List.mem_map.mp (List.mem_toFinset.mp other)
      obtain ⟨bound, same, above⟩ := fills.above entry hears
      exact Option.some.inj (known.symm.trans same) ▸ above

/-- The third and the fourth of four nodes are readable and the thread is interrupted; meanwhile the
second node was removed and a fifth was added. The handler of the third node throws. -/
def changedPass : ReceivePass ℕ where
  work := true
  interrupt := 4
  listed := [(0, -1), (1, 5), (2, 6), (3, 7)]
  selectReturn := 3
  readable := {6, 7}
  exceptional := {4}
  workAfter := true
  present := [(0, -1), (2, 6), (3, 7), (4, 8)]
  throws := fun node => node == 2

/-- The third node is received from although the list has changed; its handler throws, and
the fourth has to wait for the next pass. -/
theorem third_is_received :
    ∃ nfds, ((machine (some 0)).transitionOf entered changedPass rfl).emitted =
      [.select nfds {5, 6, 7} {4, 5, 6, 7}, .receive 2] := by
  have answers : ∀ nfds rFds eFds,
      .select nfds rFds eFds ∈ ((machine (some 0)).transitionOf entered changedPass rfl).emitted →
        Answers changedPass rFds eFds := by
    intro nfds rFds eFds called
    rcases List.mem_cons.mp called with same | received
    · cases same
      exact Or.inr (by decide)
    · obtain ⟨node, -, absurdity⟩ := List.mem_map.mp received
      cases absurdity
  obtain ⟨⟨stopped, -⟩ | ⟨-, ⟨unheard, -⟩ | ⟨nfds, emitted, -⟩⟩, -⟩ :=
    receives_every_readable (Run.nil.snoc_transitionOf changedPass rfl)
      (List.mem_singleton_self _) answers (by decide)
  · cases stopped
  · exact absurd unheard (by decide)
  · exact ⟨nfds, emitted⟩

end ReceiveLoop

end Tcp

end CppRaft
