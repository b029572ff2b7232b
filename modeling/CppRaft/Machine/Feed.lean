import Mathlib.Data.List.Basic

/-!
# A log and those who follow it

Changes are appended to a log; a follower takes them in the order of the log, each
some time after it was appended. What it has not taken yet is pending. A follower that
lost some of the changes before it took them follows those that it has heard of.
-/

namespace CppRaft

namespace Machine

variable {σ χ : Type}

/-- A follower is in the state after some first part of the log, and the rest is pending. -/
def InStep (apply : σ → χ → σ) (base : σ) (log : List χ) (state : σ) (pending : List χ) : Prop :=
  ∃ taken, taken ++ pending = log ∧ state = taken.foldl apply base

namespace InStep

variable {apply : σ → χ → σ} {base state : σ} {log pending : List χ}

/-- A follower that begins with the present state. -/
theorem joined : InStep apply base log (log.foldl apply base) [] :=
  ⟨log, List.append_nil log, rfl⟩

/-- A change is appended. -/
theorem publish (inStep : InStep apply base log state pending) (change : χ) :
    InStep apply base (log ++ [change]) state (pending ++ [change]) := by
  obtain ⟨taken, whole, rfl⟩ := inStep
  refine ⟨taken, ?_, rfl⟩
  rw [← List.append_assoc, whole]

/-- A follower takes the next change. -/
theorem take {change : χ} {rest : List χ}
    (inStep : InStep apply base log state (change :: rest)) :
    InStep apply base log (apply state change) rest := by
  obtain ⟨taken, whole, rfl⟩ := inStep
  refine ⟨taken ++ [change], ?_, ?_⟩
  · rw [List.append_assoc, List.singleton_append, whole]
  · rw [List.foldl_append, List.foldl_cons, List.foldl_nil]

/-- The pending changes bring a follower up to date. -/
theorem foldl_pending (inStep : InStep apply base log state pending) :
    pending.foldl apply state = log.foldl apply base := by
  obtain ⟨taken, rfl, rfl⟩ := inStep
  exact List.foldl_append.symm

/-- Pending changes that are lost leave a follower in step with the other changes. -/
theorem lose {front lost back : List χ}
    (inStep : InStep apply base log state (front ++ lost ++ back)) :
    ∃ heard, heard.Sublist log ∧ InStep apply base heard state (front ++ back) := by
  obtain ⟨taken, rfl, rfl⟩ := inStep
  refine ⟨taken ++ (front ++ back), ?_, taken, rfl, rfl⟩
  exact (List.Sublist.refl taken).append
    ((List.sublist_append_left front lost).append (List.Sublist.refl back))

end InStep

/-- A follower that is in step with some of the changes of a log, in their order. -/
def InPart (apply : σ → χ → σ) (base : σ) (log : List χ) (state : σ) (pending : List χ) : Prop :=
  ∃ heard, heard.Sublist log ∧ InStep apply base heard state pending

namespace InPart

variable {apply : σ → χ → σ} {base state : σ} {log pending : List χ}

/-- A change is appended. -/
theorem publish (inPart : InPart apply base log state pending) (change : χ) :
    InPart apply base (log ++ [change]) state (pending ++ [change]) := by
  obtain ⟨heard, part, inStep⟩ := inPart
  exact ⟨heard ++ [change], part.append (List.Sublist.refl _), inStep.publish change⟩

/-- More changes are lost. -/
theorem lose {front lost back : List χ}
    (inPart : InPart apply base log state (front ++ lost ++ back)) :
    InPart apply base log state (front ++ back) := by
  obtain ⟨heard, part, inStep⟩ := inPart
  obtain ⟨less, some, kept⟩ := inStep.lose
  exact ⟨less, some.trans part, kept⟩

end InPart

end Machine

end CppRaft
