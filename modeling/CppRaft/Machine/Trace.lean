import CppRaft.Machine.Effect
import Mathlib.Logic.Relation

/-!
# Runs of a machine and properties along them

A machine steps on an event or has no defined successor. A run records every
transition it takes, so that a property may speak about the past of a transition
as well as about the state it starts from.
-/

namespace CppRaft

/-- A machine driven by events. `step` is `none` when the event has no defined
successor in the state. -/
structure Machine (σ ε ω : Type) where
  step : σ → ε → Option (Machine.Effect σ ω)

namespace Machine

variable {σ ε ω : Type}

/-- One step of a run. -/
structure Transition (σ ε ω : Type) where
  before : σ
  event : ε
  after : σ
  emitted : List ω

/-- Everything emitted along a trace. -/
def emissions (trace : List (Transition σ ε ω)) : List ω :=
  trace.flatMap Transition.emitted

@[simp] theorem emissions_nil : emissions ([] : List (Transition σ ε ω)) = [] := rfl

@[simp] theorem emissions_append_singleton (trace : List (Transition σ ε ω))
    (t : Transition σ ε ω) : emissions (trace ++ [t]) = emissions trace ++ t.emitted := by
  simp [emissions]

/-- A run from `init`, with its transitions in the order they were taken. -/
inductive Run (M : Machine σ ε ω) (init : σ) : List (Transition σ ε ω) → σ → Prop where
  | nil : Run M init [] init
  | snoc {trace : List (Transition σ ε ω)} {s : σ} {event : ε} {effect : Effect σ ω} :
      Run M init trace s → M.step s event = some effect →
      Run M init (trace ++ [⟨s, event, effect.state, effect.emitted⟩]) effect.state

/-- Execute a list of events, recording the transitions. -/
def execute (M : Machine σ ε ω) : σ → List ε → Option (List (Transition σ ε ω) × σ)
  | s, [] => some ([], s)
  | s, event :: events =>
      match M.step s event with
      | none => none
      | some effect =>
          match M.execute effect.state events with
          | none => none
          | some (trace, last) =>
              some (⟨s, event, effect.state, effect.emitted⟩ :: trace, last)

/-- Execution extends a run by the transitions that it makes. -/
theorem Run.append_execute {M : Machine σ ε ω} {init s last : σ}
    {trace more : List (Transition σ ε ω)} {events : List ε}
    (run : M.Run init trace s) (executed : M.execute s events = some (more, last)) :
    M.Run init (trace ++ more) last := by
  induction events generalizing s trace more with
  | nil =>
      simp only [execute, Option.some.injEq, Prod.mk.injEq] at executed
      obtain ⟨rfl, rfl⟩ := executed
      rwa [List.append_nil]
  | cons event events ih =>
      simp only [execute] at executed
      split at executed
      · cases executed
      · rename_i effect stepped
        split at executed
        · cases executed
        · rename_i tail final rest
          simp only [Option.some.injEq, Prod.mk.injEq] at executed
          obtain ⟨rfl, rfl⟩ := executed
          have extended := ih (run.snoc stepped) rest
          rwa [List.append_assoc, List.singleton_append] at extended

/-- Executing a list of events from the start is a run. -/
theorem run_of_execute {M : Machine σ ε ω} {init last : σ} {events : List ε}
    {trace : List (Transition σ ε ω)} (executed : M.execute init events = some (trace, last)) :
    M.Run init trace last :=
  Run.nil.append_execute executed

/-- The transitions executed on a list of events; none if it has no defined execution. -/
def traceOf (M : Machine σ ε ω) (init : σ) (events : List ε) : List (Transition σ ε ω) :=
  ((M.execute init events).map Prod.fst).getD []

/-- The state a list of events leads to; the start if it has no defined execution. -/
def stateOf (M : Machine σ ε ω) (init : σ) (events : List ε) : σ :=
  ((M.execute init events).map Prod.snd).getD init

/-- A list of events with a defined execution yields a run. -/
theorem run_traceOf (M : Machine σ ε ω) (init : σ) (events : List ε)
    (defined : (M.execute init events).isSome) :
    M.Run init (M.traceOf init events) (M.stateOf init events) := by
  obtain ⟨⟨trace, last⟩, executed⟩ := Option.isSome_iff_exists.mp defined
  have executed' : M.execute init events = some (M.traceOf init events, M.stateOf init events) := by
    simp only [traceOf, stateOf, executed, Option.map_some, Option.getD_some]
  exact run_of_execute executed'

private theorem event_mem_of_mem_execute {M : Machine σ ε ω} {s last : σ} {events : List ε}
    {trace : List (Transition σ ε ω)} (executed : M.execute s events = some (trace, last))
    {t : Transition σ ε ω} (member : t ∈ trace) : t.event ∈ events := by
  induction events generalizing s trace last with
  | nil =>
      simp only [execute, Option.some.injEq, Prod.mk.injEq] at executed
      rw [← executed.1] at member
      cases member
  | cons event events ih =>
      simp only [execute] at executed
      split at executed
      · cases executed
      · split at executed
        · cases executed
        · rename_i tail final rest
          simp only [Option.some.injEq, Prod.mk.injEq] at executed
          rw [← executed.1] at member
          rcases List.mem_cons.mp member with rfl | later
          · exact List.mem_cons_self
          · exact List.mem_cons_of_mem _ (ih rest later)

/-- The transitions executed are on the events given. -/
theorem event_mem_of_mem_traceOf {M : Machine σ ε ω} {init : σ} {events : List ε}
    {t : Transition σ ε ω} (member : t ∈ M.traceOf init events) : t.event ∈ events := by
  unfold traceOf at member
  cases executed : M.execute init events with
  | none =>
      rw [executed] at member
      cases member
  | some result =>
      rw [executed] at member
      exact event_mem_of_mem_execute executed member

/-- The transition on an event that has a defined successor. -/
def transitionOf (M : Machine σ ε ω) (s : σ) (event : ε) (defined : (M.step s event).isSome) :
    Transition σ ε ω where
  before := s
  event := event
  after := ((M.step s event).get defined).state
  emitted := ((M.step s event).get defined).emitted

/-- A run goes on with any event that has a step. -/
theorem Run.snoc_transitionOf {M : Machine σ ε ω} {init s : σ} {trace : List (Transition σ ε ω)}
    (run : M.Run init trace s) (event : ε) (defined : (M.step s event).isSome) :
    M.Run init (trace ++ [M.transitionOf s event defined])
      (M.transitionOf s event defined).after :=
  run.snoc (Option.some_get defined).symm

/-- Every element of `rest` satisfies `P` relative to `past` and what precedes it in `rest`. -/
def AlongFrom {τ : Type} (P : List τ → τ → Prop) : (past rest : List τ) → Prop
  | _, [] => True
  | past, t :: rest => P past t ∧ AlongFrom P (past ++ [t]) rest

/-- Every element of a trace satisfies `P` relative to its own past. -/
def Along {τ : Type} (P : List τ → τ → Prop) (trace : List τ) : Prop :=
  AlongFrom P [] trace

section Along

variable {τ : Type} {P : List τ → τ → Prop}

instance alongFromDecidable [∀ past t, Decidable (P past t)] :
    (past rest : List τ) → Decidable (AlongFrom P past rest)
  | _, [] => inferInstanceAs (Decidable True)
  | past, t :: rest =>
      haveI := alongFromDecidable (past ++ [t]) rest
      inferInstanceAs (Decidable (P past t ∧ AlongFrom P (past ++ [t]) rest))

instance alongDecidable [∀ past t, Decidable (P past t)] (trace : List τ) :
    Decidable (Along P trace) :=
  inferInstanceAs (Decidable (AlongFrom P [] trace))

private theorem alongFrom_append (past first second : List τ) :
    AlongFrom P past (first ++ second) ↔
      AlongFrom P past first ∧ AlongFrom P (past ++ first) second := by
  induction first generalizing past with
  | nil => simp [AlongFrom]
  | cons t first ih => simp [AlongFrom, ih, and_assoc]

/-- A property along a trace is one along its past and of its last element. -/
theorem along_append_singleton (trace : List τ) (t : τ) :
    Along P (trace ++ [t]) ↔ Along P trace ∧ P trace t := by
  simp [Along, alongFrom_append, AlongFrom]

/-- A property of the elements alone. -/
theorem along_of_forall {Q : τ → Prop} {trace : List τ} (holds : ∀ t ∈ trace, Q t) :
    Along (fun _ t => Q t) trace := by
  suffices ∀ past, AlongFrom (fun _ t => Q t) past trace from this []
  induction trace with
  | nil => exact fun _ => trivial
  | cons t rest ih =>
      intro past
      exact ⟨holds t List.mem_cons_self,
        ih (fun other member => holds other (List.mem_cons_of_mem t member)) _⟩

/-- What holds along a run holds along its beginning. -/
theorem Along.of_append {first second : List τ} (along : Along P (first ++ second)) :
    Along P first := by
  rw [Along, alongFrom_append] at along
  exact along.1

/-- A property along a trace holds at every split of it. -/
theorem Along.at_split {past rest : List τ} {t : τ} (along : Along P (past ++ t :: rest)) :
    P past t := by
  rw [Along, alongFrom_append, AlongFrom, List.nil_append] at along
  exact along.2.1

end Along

/-- Induction along a run whose transitions all satisfy `P` relative to their past: an
invariant of the history and the state that each such transition preserves. -/
theorem Run.invariant_along {M : Machine σ ε ω} {init : σ}
    {P : List (Transition σ ε ω) → Transition σ ε ω → Prop}
    (I : List (Transition σ ε ω) → σ → Prop) (initial : I [] init)
    (preserved : ∀ {trace s event effect}, M.Run init trace s → I trace s →
      M.step s event = some effect → P trace ⟨s, event, effect.state, effect.emitted⟩ →
      I (trace ++ [⟨s, event, effect.state, effect.emitted⟩]) effect.state)
    {trace : List (Transition σ ε ω)} {s : σ} (run : M.Run init trace s)
    (along : Along P trace) : I trace s := by
  induction run with
  | nil => exact initial
  | snoc run stepped ih =>
      rw [along_append_singleton] at along
      exact preserved run (ih along.1) stepped along.2

/-- Induction along an arbitrary run. -/
theorem Run.invariant {M : Machine σ ε ω} {init : σ}
    (I : List (Transition σ ε ω) → σ → Prop) (initial : I [] init)
    (preserved : ∀ {trace s event effect}, M.Run init trace s → I trace s →
      M.step s event = some effect →
      I (trace ++ [⟨s, event, effect.state, effect.emitted⟩]) effect.state)
    {trace : List (Transition σ ε ω)} {s : σ} (run : M.Run init trace s) : I trace s := by
  induction run with
  | nil => exact initial
  | snoc run stepped ih => exact preserved run ih stepped

/-- An invariant of the states that a transition keeps exactly under a condition: a run keeps
it throughout if and only if all its transitions meet the condition. -/
theorem Run.forall_after_iff {M : Machine σ ε ω} {init : σ} {I : σ → Prop}
    {P : Transition σ ε ω → Prop} (initial : I init)
    (exact : ∀ {trace s event effect}, M.Run init trace s → I s →
      M.step s event = some effect →
      (I effect.state ↔ P ⟨s, event, effect.state, effect.emitted⟩))
    {trace : List (Transition σ ε ω)} {s : σ} (run : M.Run init trace s) :
    ((∀ t ∈ trace, I t.after) ↔ ∀ t ∈ trace, P t) ∧ ((∀ t ∈ trace, I t.after) → I s) := by
  induction run with
  | nil => simp [initial]
  | snoc run stepped ih =>
      simp only [List.mem_append, List.mem_singleton, or_imp, forall_and, forall_eq]
      refine ⟨?_, fun kept => kept.2⟩
      rw [← ih.1]
      exact and_congr_right fun kept => exact run (ih.2 kept) stepped

/-- A property of states that a transition has after it exactly if it has it before and meets a
condition: the last state of a run has it exactly if the first has it and all transitions meet
the condition. -/
theorem Run.last_iff {M : Machine σ ε ω} {init : σ} {I : σ → Prop}
    {P : Transition σ ε ω → Prop}
    (exact : ∀ {trace s event effect}, M.Run init trace s → M.step s event = some effect →
      (I effect.state ↔ I s ∧ P ⟨s, event, effect.state, effect.emitted⟩))
    {trace : List (Transition σ ε ω)} {s : σ} (run : M.Run init trace s) :
    I s ↔ I init ∧ ∀ t ∈ trace, P t := by
  induction run with
  | nil => simp
  | snoc run stepped ih =>
      simp only [List.mem_append, List.mem_singleton, or_imp, forall_and, forall_eq]
      rw [exact run stepped, ih, and_assoc]

/-- The machine can go from one state to another. -/
def Leads (M : Machine σ ε ω) : σ → σ → Prop :=
  Relation.ReflTransGen fun s s' => ∃ event emitted, M.step s event = some ⟨s', emitted⟩

/-- A step leads from its state to the next. -/
theorem Leads.of_step {M : Machine σ ε ω} {s : σ} {event : ε} {effect : Effect σ ω}
    (stepped : M.step s event = some effect) : M.Leads s effect.state :=
  .single ⟨event, effect.emitted, stepped⟩

/-- A run goes on to a state that its last one leads to. -/
theorem Run.append_leads {M : Machine σ ε ω} {init s s' : σ} {trace : List (Transition σ ε ω)}
    (run : M.Run init trace s) (leads : M.Leads s s') : ∃ trace', M.Run init trace' s' := by
  induction leads with
  | refl => exact ⟨trace, run⟩
  | tail _ step ih =>
      obtain ⟨trace', run'⟩ := ih
      obtain ⟨event, emitted, stepped⟩ := step
      exact ⟨_, run'.snoc stepped⟩

/-- A machine whose steps another one can follow, from the image of each state: its runs have
images there. -/
theorem Run.simulate {τ δ ω' : Type} {M : Machine σ ε ω} {N : Machine τ δ ω'} {init : σ}
    (image : σ → τ)
    (matched : ∀ {s event effect}, M.step s event = some effect →
      N.Leads (image s) (image effect.state))
    {trace : List (Transition σ ε ω)} {s : σ} (run : M.Run init trace s) :
    ∃ trace', N.Run (image init) trace' (image s) := by
  induction run with
  | nil => exact ⟨[], .nil⟩
  | snoc run stepped ih =>
      obtain ⟨trace', run'⟩ := ih
      exact run'.append_leads (matched stepped)

/-- A run goes on with a run from its last state. -/
theorem Run.append {M : Machine σ ε ω} {init s s' : σ} {trace more : List (Transition σ ε ω)}
    (run : M.Run init trace s) (later : M.Run s more s') : M.Run init (trace ++ more) s' := by
  induction later with
  | nil => rwa [List.append_nil]
  | snoc _ stepped ih =>
      rw [← List.append_assoc]
      exact ih.snoc stepped

/-- One step as a run. -/
theorem Run.single {M : Machine σ ε ω} {s : σ} {event : ε} {effect : Effect σ ω}
    (stepped : M.step s event = some effect) :
    M.Run s [⟨s, event, effect.state, effect.emitted⟩] effect.state :=
  Run.nil.snoc stepped

/-- A machine whose steps another one can follow with what it shows of its emissions: its runs
have images there that emit what they show. -/
theorem Run.simulate_emissions {τ δ ω' : Type} {M : Machine σ ε ω} {N : Machine τ δ ω'} {init : σ}
    (image : σ → τ) (shown : ω → Option ω')
    (matched : ∀ {s event effect}, M.step s event = some effect →
      ∃ moves, N.Run (image s) moves (image effect.state) ∧
        emissions moves = effect.emitted.filterMap shown)
    {trace : List (Transition σ ε ω)} {s : σ} (run : M.Run init trace s) :
    ∃ moves, N.Run (image init) moves (image s) ∧
      emissions moves = (emissions trace).filterMap shown := by
  induction run with
  | nil => exact ⟨[], .nil, rfl⟩
  | snoc run stepped ih =>
      obtain ⟨early, reached, past⟩ := ih
      obtain ⟨late, goes, present⟩ := matched stepped
      refine ⟨early ++ late, reached.append goes, ?_⟩
      rw [emissions_append_singleton, List.filterMap_append, ← past, ← present, emissions,
        List.flatMap_append]
      rfl

/-- Every transition of a run starts from a state the run has reached by then, and leads to
one from which the rest of the run goes on. -/
theorem Run.at_split {M : Machine σ ε ω} {init s : σ}
    {past rest : List (Transition σ ε ω)} {t : Transition σ ε ω}
    (run : M.Run init (past ++ t :: rest) s) :
    M.Run init past t.before ∧ M.step t.before t.event = some ⟨t.after, t.emitted⟩ := by
  generalize whole : past ++ t :: rest = trace at run
  induction run generalizing rest with
  | nil => simp at whole
  | @snoc trace s event effect run stepped ih =>
      rcases List.eq_nil_or_concat rest with rfl | ⟨front, last, rfl⟩
      · obtain ⟨rfl, single⟩ := List.append_inj' whole rfl
        obtain rfl := List.singleton_inj.mp single
        exact ⟨run, stepped⟩
      · rw [List.concat_eq_append, ← List.cons_append, ← List.append_assoc] at whole
        exact ih (List.append_inj' whole rfl).1

/-- A run ends after its last transition. -/
theorem Run.eq_after {M : Machine σ ε ω} {init s : σ} {trace : List (Transition σ ε ω)}
    {t : Transition σ ε ω} (run : M.Run init (trace ++ [t]) s) : s = t.after := by
  generalize whole : trace ++ [t] = steps at run
  cases run with
  | nil => simp at whole
  | snoc _ _ =>
      obtain ⟨-, last⟩ := List.append_inj' whole rfl
      rw [List.singleton_inj.mp last]

/-- Every transition of a run is a step from a state that a run leads to. With it a fact
about all states that runs lead to becomes one about all transitions. -/
theorem Run.at_mem {M : Machine σ ε ω} {init s : σ} {trace : List (Transition σ ε ω)}
    (run : M.Run init trace s) {t : Transition σ ε ω} (member : t ∈ trace) :
    ∃ past, M.Run init past t.before ∧ M.step t.before t.event = some ⟨t.after, t.emitted⟩ := by
  obtain ⟨past, rest, rfl⟩ := List.append_of_mem member
  exact ⟨past, run.at_split⟩

end Machine

end CppRaft
