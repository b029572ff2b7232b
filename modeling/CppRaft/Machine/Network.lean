import Mathlib.Logic.Function.Basic
import CppRaft.Machine.Trace

/-!
# Machines that exchange messages

Copies of one machine run side by side. What a copy emits may put packets in
flight; a packet is delivered, out of order and after any delay, or lost. Every
copy makes a run of the machine, and what reaches it is either spontaneous or a
packet that another copy emitted in its own run.
-/

namespace CppRaft

namespace Machine

/-- A message in flight, with the event whose handling emitted it. -/
structure Packet (Node ε μ : Type) where
  src : Node
  dst : Node
  msg : μ
  cause : ε

/-- How a machine sends and receives. A received packet becomes an event, by a choice that the
network makes. -/
structure Protocol (Node σ ε ω μ κ : Type) where
  machine : Machine σ ε ω
  sends : ω → Option (Node × μ)
  receive : Packet Node ε μ → κ → Option ε
  spontaneous : σ → ε → Bool

/-- The states of the copies and the packets in flight. -/
structure NetState (Node σ ε μ : Type) where
  node : Node → σ
  inFlight : List (Packet Node ε μ)

/-- A step of the network: an event of its own at a node, a delivery, or a loss. -/
inductive NetEvent (Node ε κ : Type) where
  | spontaneous (node : Node) (event : ε)
  | deliver (position : ℕ) (choice : κ)
  | drop (position : ℕ)

variable {Node σ ε ω μ κ : Type}

namespace Protocol

variable (P : Protocol Node σ ε ω μ κ)

/-- The packets among the emissions of a call. -/
def packets (node : Node) (event : ε) (emitted : List ω) : List (Packet Node ε μ) :=
  emitted.filterMap fun action =>
    (P.sends action).map fun sent => ⟨node, sent.1, sent.2, event⟩

variable [DecidableEq Node]

/-- The network after one node handles an event. -/
def act (s : NetState Node σ ε μ) (inFlight : List (Packet Node ε μ)) (node : Node) (event : ε) :
    Option (Effect (NetState Node σ ε μ) (Node × ω)) :=
  (P.machine.step (s.node node) event).map fun effect =>
    ⟨⟨Function.update s.node node effect.state,
        inFlight ++ P.packets node event effect.emitted⟩,
      effect.emitted.map fun action => (node, action)⟩

/-- The node and the event that a step of the network makes it handle. -/
def handled (s : NetState Node σ ε μ) : NetEvent Node ε κ → Option (Node × ε)
  | .spontaneous node event =>
      if P.spontaneous (s.node node) event then some (node, event) else none
  | .deliver position choice =>
      s.inFlight[position]?.bind fun packet =>
        (P.receive packet choice).map fun event => (packet.dst, event)
  | .drop _ => none

/-- The packets that a step of the network leaves in flight. -/
def remaining (s : NetState Node σ ε μ) : NetEvent Node ε κ → List (Packet Node ε μ)
  | .spontaneous _ _ => s.inFlight
  | .deliver position _ => s.inFlight.eraseIdx position
  | .drop position => s.inFlight.eraseIdx position

/-- The network as a machine. -/
def network : Machine (NetState Node σ ε μ) (NetEvent Node ε κ) (Node × ω) where
  step := fun s event =>
    match event with
    | .drop position =>
        if position < s.inFlight.length then some ⟨{ s with inFlight := remaining s event }, []⟩
        else none
    | _ => (P.handled s event).bind fun call => P.act s (remaining s event) call.1 call.2

/-- A step of the network is a call at one node, or a loss; a call takes its packet out of
the network and puts in what the node sends. -/
theorem network_step_cases {s : NetState Node σ ε μ} {event : NetEvent Node ε κ}
    {effect : Effect (NetState Node σ ε μ) (Node × ω)}
    (stepped : P.network.step s event = some effect) :
    (∃ node call own, P.handled s event = some (node, call) ∧
      P.machine.step (s.node node) call = some own ∧
      effect = ⟨⟨Function.update s.node node own.state,
          remaining s event ++ P.packets node call own.emitted⟩,
        own.emitted.map fun action => (node, action)⟩) ∨
    (P.handled s event = none ∧ effect = ⟨{ s with inFlight := remaining s event }, []⟩) := by
  have called (position : P.network.step s event =
      (P.handled s event).bind fun call => P.act s (remaining s event) call.1 call.2) :
      ∃ node call own, P.handled s event = some (node, call) ∧
        P.machine.step (s.node node) call = some own ∧
        effect = ⟨⟨Function.update s.node node own.state,
            remaining s event ++ P.packets node call own.emitted⟩,
          own.emitted.map fun action => (node, action)⟩ := by
    rw [position, Option.bind_eq_some_iff] at stepped
    obtain ⟨⟨node, call⟩, handles, acted⟩ := stepped
    obtain ⟨own, ownStep, rfl⟩ := Option.map_eq_some_iff.mp acted
    exact ⟨node, call, own, handles, ownStep, rfl⟩
  cases event with
  | spontaneous node call => exact Or.inl (called rfl)
  | deliver position choice => exact Or.inl (called rfl)
  | drop position =>
      simp only [network] at stepped
      split at stepped
      · exact Or.inr ⟨rfl, (Option.some.inj stepped).symm⟩
      · cases stepped

/-- What a step of the network is for one node. -/
def localStep (node : Node) (t : Transition (NetState Node σ ε μ) (NetEvent Node ε κ) (Node × ω)) :
    Option (Transition σ ε ω) :=
  (P.handled t.before t.event).bind fun call =>
    if call.1 = node then
      some ⟨t.before.node node, call.2, t.after.node node, t.emitted.map Prod.snd⟩
    else none

/-- The run of one node within a run of the network. -/
def localTrace (node : Node)
    (trace : List (Transition (NetState Node σ ε μ) (NetEvent Node ε κ) (Node × ω))) :
    List (Transition σ ε ω) :=
  trace.filterMap (P.localStep node)

/-- What a node sees of a run is collected step by step. -/
theorem localTrace_append_singleton (node : Node)
    (trace : List (Transition (NetState Node σ ε μ) (NetEvent Node ε κ) (Node × ω)))
    (t : Transition (NetState Node σ ε μ) (NetEvent Node ε κ) (Node × ω)) :
    P.localTrace node (trace ++ [t]) =
      P.localTrace node trace ++ (P.localStep node t).toList := by
  unfold localTrace
  rw [List.filterMap_append]
  cases step : P.localStep node t <;> simp [step]

/-- The transition of the node that a call runs at, and no transition of the others: a node
sees nothing of what happens elsewhere. -/
theorem localStep_of_handled {s : NetState Node σ ε μ} {event : NetEvent Node ε κ} {actor : Node}
    {call : ε} {own : Effect σ ω} {inFlight : List (Packet Node ε μ)}
    (handles : P.handled s event = some (actor, call)) (node : Node) :
    P.localStep node ⟨s, event, ⟨Function.update s.node actor own.state, inFlight⟩,
        own.emitted.map fun action => (actor, action)⟩ =
      if actor = node then some ⟨s.node actor, call, own.state, own.emitted⟩ else none := by
  unfold localStep
  rw [handles, Option.bind_some]
  by_cases same : actor = node
  · subst same
    have emitted : (own.emitted.map fun action => (actor, action)).map Prod.snd = own.emitted := by
      rw [List.map_map]
      exact List.map_id _
    simp only [↓reduceIte, Function.update_self, emitted]
  · simp only [same, ↓reduceIte]

/-- Each node makes a run of the machine, whatever the network does. All invariants of
single machines hold of the nodes by this. -/
theorem run_localTrace {init s : NetState Node σ ε μ}
    {trace : List (Transition (NetState Node σ ε μ) (NetEvent Node ε κ) (Node × ω))}
    (run : P.network.Run init trace s) (node : Node) :
    P.machine.Run (init.node node) (P.localTrace node trace) (s.node node) := by
  apply run.invariant fun trace s =>
    P.machine.Run (init.node node) (P.localTrace node trace) (s.node node)
  · exact .nil
  · intro trace s event effect _ ownRun stepped
    rw [localTrace_append_singleton]
    rcases P.network_step_cases stepped with ⟨actor, call, own, handles, ownStep, rfl⟩ |
      ⟨unhandled, rfl⟩
    · rw [P.localStep_of_handled handles]
      by_cases same : actor = node
      · subst same
        simp only [↓reduceIte, Function.update_self]
        exact ownRun.snoc ownStep
      · simp only [same, ↓reduceIte, Function.update_of_ne (Ne.symm same)]
        simpa using ownRun
    · simpa [localStep, unhandled] using ownRun

/-- The packet was emitted by its source, in a call on its cause. -/
def Emitted (trace : List (Transition (NetState Node σ ε μ) (NetEvent Node ε κ) (Node × ω)))
    (packet : Packet Node ε μ) : Prop :=
  ∃ t ∈ P.localTrace packet.src trace, t.event = packet.cause ∧
    ∃ action ∈ t.emitted, P.sends action = some (packet.dst, packet.msg)

variable {P} in
/-- What was emitted stays emitted. -/
theorem Emitted.append {trace : List (Transition (NetState Node σ ε μ) (NetEvent Node ε κ)
    (Node × ω))} {packet : Packet Node ε μ} (emitted : P.Emitted trace packet)
    (t : Transition (NetState Node σ ε μ) (NetEvent Node ε κ) (Node × ω)) :
    P.Emitted (trace ++ [t]) packet := by
  obtain ⟨own, member, cause⟩ := emitted
  refine ⟨own, ?_, cause⟩
  rw [localTrace_append_singleton]
  exact List.mem_append_left _ member

omit [DecidableEq Node] in
/-- A step only takes packets away from those in flight, before it adds its own. -/
theorem mem_remaining {s : NetState Node σ ε μ} {event : NetEvent Node ε κ}
    {packet : Packet Node ε μ} (member : packet ∈ remaining s event) : packet ∈ s.inFlight := by
  cases event with
  | spontaneous _ _ => exact member
  | deliver _ _ => exact List.mem_of_mem_eraseIdx member
  | drop _ => exact List.mem_of_mem_eraseIdx member

/-- Every packet in flight was emitted: the network loses packets and delays them, but makes
up none. -/
theorem emitted_of_inFlight {init s : NetState Node σ ε μ} (silent : init.inFlight = [])
    {trace : List (Transition (NetState Node σ ε μ) (NetEvent Node ε κ) (Node × ω))}
    (run : P.network.Run init trace s) : ∀ packet ∈ s.inFlight, P.Emitted trace packet := by
  apply run.invariant fun trace s => ∀ packet ∈ s.inFlight, P.Emitted trace packet
  · intro packet member
    rw [silent] at member
    cases member
  · intro trace s event effect _ earlier stepped packet member
    rcases P.network_step_cases stepped with ⟨actor, call, own, handles, ownStep, rfl⟩ |
      ⟨-, rfl⟩
    · rcases List.mem_append.mp member with old | new
      · exact (earlier packet (mem_remaining old)).append _
      · obtain ⟨action, actionMember, sent⟩ := List.mem_filterMap.mp new
        obtain ⟨⟨dst, msg⟩, sends, rfl⟩ := Option.map_eq_some_iff.mp sent
        refine ⟨⟨s.node actor, call, own.state, own.emitted⟩, ?_, rfl, action, actionMember, sends⟩
        rw [localTrace_append_singleton, P.localStep_of_handled handles]
        simp
    · exact (earlier packet (mem_remaining member)).append _

omit [DecidableEq Node] in
/-- What a step makes a node handle is its own, or a packet in flight to it that its
protocol accepts. -/
theorem origin_of_handled {s : NetState Node σ ε μ} {event : NetEvent Node ε κ} {node : Node}
    {call : ε} (handles : P.handled s event = some (node, call)) :
    P.spontaneous (s.node node) call = true ∨
      ∃ packet ∈ s.inFlight, ∃ choice, packet.dst = node ∧
        P.receive packet choice = some call := by
  cases event with
  | spontaneous node' call' =>
      simp only [handled] at handles
      split at handles
      · rename_i allowed
        cases handles
        exact Or.inl allowed
      · cases handles
  | deliver position choice =>
      obtain ⟨packet, inFlight, received⟩ := Option.bind_eq_some_iff.mp handles
      obtain ⟨event, receives, same⟩ := Option.map_eq_some_iff.mp received
      cases same
      exact Or.inr ⟨packet, List.mem_of_getElem? inFlight, choice, rfl, receives⟩
  | drop position => cases handles

/-- What a node handles in a run is its own, or a packet that was emitted to it earlier in
the run. -/
theorem origin_of_mem_localTrace {init s : NetState Node σ ε μ} (silent : init.inFlight = [])
    {trace : List (Transition (NetState Node σ ε μ) (NetEvent Node ε κ) (Node × ω))}
    (run : P.network.Run init trace s) (node : Node) :
    ∀ t ∈ P.localTrace node trace, P.spontaneous t.before t.event = true ∨
      ∃ packet choice, packet.dst = node ∧ P.receive packet choice = some t.event ∧
        P.Emitted trace packet := by
  apply run.invariant fun trace _ =>
    ∀ t ∈ P.localTrace node trace, P.spontaneous t.before t.event = true ∨
      ∃ packet choice, packet.dst = node ∧ P.receive packet choice = some t.event ∧
        P.Emitted trace packet
  · intro t member
    cases member
  · intro trace s event effect earlierRun earlier stepped t member
    rw [localTrace_append_singleton] at member
    rcases List.mem_append.mp member with old | new
    · rcases earlier t old with own | ⟨packet, choice, dst, received, emitted⟩
      · exact Or.inl own
      · exact Or.inr ⟨packet, choice, dst, received, emitted.append _⟩
    · rcases P.network_step_cases stepped with ⟨actor, call, own, handles, ownStep, rfl⟩ |
        ⟨unhandled, -⟩
      · rw [P.localStep_of_handled handles] at new
        split at new
        · rename_i same
          subst same
          obtain rfl := List.mem_singleton.mp new
          rcases P.origin_of_handled handles with own | ⟨packet, inFlight, choice, dst, receives⟩
          · exact Or.inl own
          · have emitted := P.emitted_of_inFlight silent earlierRun packet inFlight
            exact Or.inr ⟨packet, choice, dst, receives, emitted.append _⟩
        · cases new
      · simp [localStep, unhandled] at new

end Protocol

end Machine

end CppRaft
