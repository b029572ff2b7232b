import CppRaft.Server.Handlers

/-!
# Applying entries

`apply_entry` and the two loops around it move `last_applied_idx` forward one
index at a time and nothing else. `Applied` says what any number of such calls
does; it composes, so the loops satisfy it because one call does.
-/

namespace CppRaft

open Machine

variable {Node : Type}

/-- The index an action hands to the state machine. -/
def Action.appliedIdx? : Action Node → Option Int
  | .applylog idx _ => some idx
  | _ => none

/-- The indices handed to the state machine, in order. -/
def appliedIdxs (emitted : List (Action Node)) : List Int :=
  emitted.filterMap Action.appliedIdx?

@[simp] theorem appliedIdxs_nil : appliedIdxs ([] : List (Action Node)) = [] := rfl

@[simp] theorem appliedIdxs_append (first second : List (Action Node)) :
    appliedIdxs (first ++ second) = appliedIdxs first ++ appliedIdxs second :=
  List.filterMap_append

/-- The `count` indices that follow `idx`. -/
def indicesFrom (idx : Int) (count : ℕ) : List Int :=
  (List.range count).map fun offset : ℕ => idx + 1 + offset

/-- A range of indices can be cut in two. -/
theorem indicesFrom_add (idx : Int) (first second : ℕ) :
    indicesFrom idx (first + second) =
      indicesFrom idx first ++ indicesFrom (idx + first) second := by
  simp only [indicesFrom, List.range_add, List.map_append, List.map_map, List.append_cancel_left_eq]
  apply List.map_congr_left
  intro offset _
  simp only [Function.comp_apply, Int.natCast_add]
  omega

/-- Everything emitted applies an entry of the log at its index. -/
def ApplicationsOf (log : RaftLogger) (emitted : List (Action Node)) : Prop :=
  ∀ action ∈ emitted, ∃ idx entry,
    action = .applylog idx entry ∧ log.entryAt? idx = some entry

namespace ApplicationsOf

variable {log : RaftLogger} {emitted : List (Action Node)}

/-- Nothing was applied. -/
theorem nil : ApplicationsOf log ([] : List (Action Node)) := by
  intro action member
  cases member

/-- Applications from one log can be put together. -/
theorem append {more : List (Action Node)} (first : ApplicationsOf log emitted)
    (second : ApplicationsOf log more) : ApplicationsOf log (emitted ++ more) := by
  intro action member
  rcases List.mem_append.mp member with earlier | later
  · exact first action earlier
  · exact second action later

/-- What was applied is the entry of the log at that index. -/
theorem found (applications : ApplicationsOf log emitted) {idx : Int} {entry : RaftEntry}
    (member : .applylog idx entry ∈ emitted) : log.entryAt? idx = some entry := by
  obtain ⟨i, e, same, found⟩ := applications _ member
  cases same
  exact found

/-- Applications send nothing. -/
theorem send_not_mem (applications : ApplicationsOf log emitted) (node : Node) (msg : Message) :
    .send node msg ∉ emitted := by
  intro member
  obtain ⟨_, _, other, -⟩ := applications _ member
  cases other

/-- Applications push nothing. -/
theorem appended_not_mem (applications : ApplicationsOf log emitted) (idx : Int) :
    .appended idx ∉ emitted := by
  intro member
  obtain ⟨_, _, other, -⟩ := applications _ member
  cases other

end ApplicationsOf

namespace RaftServer

/-- `s'` is reached from `s` by applying consecutive entries of the log. -/
structure Applied (s : RaftServer Node) (emitted : List (Action Node)) (s' : RaftServer Node) :
    Prop where
  frame : ∃ commit applied, s' = { s with commitIdx := commit, lastAppliedIdx := applied }
  together : s.lastAppliedIdx = s.commitIdx → s'.lastAppliedIdx = s'.commitIdx
  consecutive : ∃ count : ℕ, s'.lastAppliedIdx = s.lastAppliedIdx + count ∧
    appliedIdxs emitted =
      if s.callbacks.applylog then indicesFrom s.lastAppliedIdx count else []
  sound : ApplicationsOf s.log emitted

/-- `Applied` is a reflexive and transitive property of effects, so it holds of whole
handlers if it holds of their parts. -/
theorem applied_composes : Composes (@Applied Node) where
  refl s :=
    { frame := ⟨s.commitIdx, s.lastAppliedIdx, rfl⟩
      together := fun same => same
      consecutive := ⟨0, by simp, by simp [indicesFrom]⟩
      sound := .nil }
  trans {s s' s'' first second} left right := by
    obtain ⟨commit, applied, rfl⟩ := left.frame
    obtain ⟨count, moved, indices⟩ := left.consecutive
    obtain ⟨count', moved', indices'⟩ := right.consecutive
    refine ⟨?_, fun same => right.together (left.together same), ⟨count + count', ?_, ?_⟩,
      left.sound.append right.sound⟩
    · obtain ⟨commit', applied', rfl⟩ := right.frame
      exact ⟨commit', applied', rfl⟩
    · push_cast
      rw [moved', moved]
      omega
    · rw [appliedIdxs_append, indices, indices', indicesFrom_add]
      simp only at moved ⊢
      rw [moved]
      split <;> simp

/-- One call of `apply_entry` applies the entry after the last applied one and moves that
index, or does nothing. -/
theorem applyEntry_applied (s : RaftServer Node) :
    Applied s (applyEntry s).emitted (applyEntry s).state := by
  unfold applyEntry
  split
  case h_1 e found =>
      rw [RaftLogger.logGetFromIdx_eq_returned_iff] at found
      refine ⟨⟨_, _, rfl⟩, ?_, ⟨1, rfl, ?_⟩, ?_⟩
      · intro same
        simp only
        split <;> omega
      · cases s.callbacks.applylog <;>
          simp [appliedIdxs, Action.appliedIdx?, indicesFrom]
      · intro action member
        cases callback : s.callbacks.applylog with
        | false => simp [callback] at member
        | true =>
            simp only [callback, ↓reduceIte, List.mem_singleton] at member
            exact ⟨_, _, member, found⟩
  all_goals exact applied_composes.refl s

/-- A call of `apply_entry` that returns moves by one index and returns one, or changes
nothing and returns zero. -/
theorem applyEntry_exit_eq_returned {s : RaftServer Node} {result : Int}
    (returned : (applyEntry s).exit = .returned result) :
    (result = 1 ∧ ∃ entry, s.log.entryAt? (s.lastAppliedIdx + 1) = some entry ∧
      (applyEntry s).state.lastAppliedIdx = s.lastAppliedIdx + 1) ∨
    (result = 0 ∧ (applyEntry s).state = s ∧ (applyEntry s).emitted = []) := by
  unfold applyEntry at returned ⊢
  split at returned
  case h_1 e found =>
      rw [RaftLogger.logGetFromIdx_eq_returned_iff] at found
      cases returned
      exact Or.inl ⟨rfl, e, found, rfl⟩
  case h_2 =>
      cases returned
      exact Or.inr ⟨rfl, rfl, rfl⟩
  case h_3 => cases returned
  case h_4 => cases returned

/-- `apply_entry` has no loop. -/
theorem applyEntry_exit_ne_diverged (s : RaftServer Node) :
    (applyEntry s).exit ≠ .diverged := by
  have fetch := RaftLogger.logGetFromIdx_ne_diverged s.log (s.lastAppliedIdx + 1)
  unfold applyEntry
  split <;> simp_all

/-- `apply_entry` does not throw: it catches the exception of a missing entry and returns
zero. -/
theorem applyEntry_exit_ne_thrown (s : RaftServer Node) : (applyEntry s).exit ≠ .thrown := by
  unfold applyEntry
  split <;> simp

/-- The entries that `apply_entry` can still apply; they bound both loops around it. -/
def unapplied (s : RaftServer Node) : ℕ :=
  if 0 ≤ s.lastAppliedIdx then (s.log.length - s.lastAppliedIdx).toNat else 0

/-- There are no more entries to apply than there are entries. -/
theorem unapplied_le (s : RaftServer Node) : s.unapplied ≤ s.log.length := by
  unfold unapplied
  split <;> omega

/-- A call of `apply_entry` that applies an entry leaves one fewer. -/
theorem unapplied_applyEntry_lt {s : RaftServer Node}
    (returned : (applyEntry s).exit = .returned 1) :
    (applyEntry s).state.unapplied < s.unapplied := by
  rcases applyEntry_exit_eq_returned returned with ⟨-, entry, found, moved⟩ | ⟨zero, -⟩
  · have bounds := RaftLogger.entryAt?_eq_some_bounds found
    obtain ⟨commit, applied, frame⟩ := (applyEntry_applied s).frame
    rw [frame] at moved ⊢
    simp only [unapplied] at moved ⊢
    rw [if_pos (by omega), if_pos (by omega)]
    omega
  · exact absurd zero (by decide)

/-- One pass of the apply loop of `recv_appendentries`; `false` leaves the loop. -/
def applyNext (s : RaftServer Node) : Outcome (RaftServer Node) (Action Node) Bool :=
  (applyEntry s).bind fun result s => (Effect.done s).returning (decide (result = 1))

/-- The loop of `recv_appendentries` over `apply_entry`, with a bound on its passes that it
never meets. -/
theorem applyEntries_eq_loop (s : RaftServer Node) :
    applyEntries s = Outcome.loop applyNext (s.log.length + 1) s := rfl

/-- A pass of the apply loop applies an entry, is refused one, or reads before the first. -/
inductive ApplyPass (s : RaftServer Node) : Prop where
  | applied (e : RaftEntry) (found : s.log.entryAt? (s.lastAppliedIdx + 1) = some e)
      (returned : (applyEntry s).exit = .returned 1)
      (pass : applyNext s = ⟨.returned true, (applyEntry s).state, (applyEntry s).emitted⟩)
  | refused (outside : s.log.Refuses (s.lastAppliedIdx + 1))
      (pass : applyNext s = ⟨.returned false, s, []⟩)
  | before (nonempty : s.log ≠ []) (zero : s.lastAppliedIdx + 1 = 0)
      (pass : applyNext s = ⟨.undefined, s, []⟩)

/-- One pass of the loop: an entry is applied and the index rises, or the loop ends. -/
theorem applyNext_pass (s : RaftServer Node) : ApplyPass s := by
  cases s.log.fetch (s.lastAppliedIdx + 1) with
  | found e inside fetched =>
      have returned : (applyEntry s).exit = .returned 1 := by simp [applyEntry, fetched]
      refine .applied e inside returned ?_
      simp [applyNext, Outcome.bind, returned, Effect.returning, Effect.done]
  | refused outside fetched =>
      refine .refused outside ?_
      simp [applyNext, applyEntry, fetched, Outcome.bind, Effect.returning, Effect.done]
  | before nonempty zero fetched =>
      refine .before nonempty zero ?_
      simp [applyNext, applyEntry, fetched, Outcome.bind]

/-- A pass has no loop of its own. -/
theorem applyNext_exit_ne_diverged (s : RaftServer Node) : (applyNext s).exit ≠ .diverged := by
  cases applyNext_pass s <;> simp [*]

/-- The measure of the loop: a pass that asks for another leaves fewer entries to apply. -/
theorem unapplied_applyNext_lt {s : RaftServer Node}
    (again : (applyNext s).exit = .returned true) :
    (applyNext s).state.unapplied < s.unapplied := by
  cases applyNext_pass s with
  | applied _ _ returned pass =>
      rw [pass]
      exact unapplied_applyEntry_lt returned
  | refused _ pass => simp [pass] at again
  | before _ _ pass => simp [pass] at again

/-- The apply loop of `recv_appendentries` ends. -/
theorem applyEntries_exit_ne_diverged (s : RaftServer Node) :
    (applyEntries s).exit ≠ .diverged :=
  Outcome.loop_exit_ne_diverged applyNext unapplied applyNext_exit_ne_diverged
    (fun _ => unapplied_applyNext_lt) _ s (Nat.lt_succ_of_le (unapplied_le s))

/-- The apply loop of `recv_appendentries` does not throw. -/
theorem applyEntries_exit_ne_thrown (s : RaftServer Node) :
    (applyEntries s).exit ≠ .thrown := by
  apply Outcome.loop_exit_ne_thrown applyNext
  intro s
  cases applyNext_pass s <;> simp [*]

/-- The apply loop of `recv_appendentries`. -/
theorem applyEntries_applied (s : RaftServer Node) :
    Applied s (applyEntries s).emitted (applyEntries s).state := by
  apply Outcome.loop_composes applied_composes applyNext
  intro s
  exact Outcome.bind_composes applied_composes _ _ _ (applyEntry_applied s)
    (fun _ => applied_composes.refl _)

end RaftServer

end CppRaft
