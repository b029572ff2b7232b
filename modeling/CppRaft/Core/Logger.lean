import CppRaft.Core.Message
import CppRaft.Machine.Effect

/-!
# The log

`RaftLogger` keeps its entries in a vector and addresses them from one. A
refused index throws; index zero of a nonempty log passes the test and subscripts
the vector before its first element.
-/

namespace CppRaft

open Machine

/-- `RaftLogger`: the vector of entries. -/
abbrev RaftLogger : Type := List RaftEntry

namespace RaftLogger

/-- `log_append_entry`: refuses id zero. -/
def logAppendEntry (log : RaftLogger) (c : RaftEntry) : Int × RaftLogger :=
  if c.id = 0 then (0, log)
  else (1, log ++ [{ c with numNodes := 0 }])

/-- `log_get_from_idx`. -/
def logGetFromIdx (log : RaftLogger) (idx : Int) : Exit RaftEntry :=
  if log = [] ∨ idx < 0 ∨ (log.length : Int) < idx then .thrown
  else subscript log (idx - 1)

/-- `log_count`. -/
def logCount (log : RaftLogger) : Int :=
  log.length

/-- `log_delete`: erases from position `idx - 1` to the end. -/
def logDelete (log : RaftLogger) (idx : Int) : Exit RaftLogger :=
  if 0 ≤ idx - 1 ∧ idx - 1 ≤ log.length then .returned (log.take (idx - 1).toNat)
  else .undefined

/-- `log_peektail`. -/
def logPeektail (log : RaftLogger) : Exit RaftEntry :=
  match log.getLast? with
  | some entry => .returned entry
  | none => .thrown

/-- `log_mark_node_has_committed`. -/
def logMarkNodeHasCommitted (log : RaftLogger) (idx : Int) : Exit RaftLogger :=
  (log.logGetFromIdx idx).map fun entry =>
    log.set (idx - 1).toNat { entry with numNodes := entry.numNodes + 1 }

/-- The entry at a one-based index, if the log has it. -/
def entryAt? (log : RaftLogger) (idx : Int) : Option RaftEntry :=
  if 1 ≤ idx then log[(idx - 1).toNat]? else none

/-- A fetch throws exactly on the indices its test refuses. -/
theorem logGetFromIdx_eq_thrown_iff (log : RaftLogger) (idx : Int) :
    log.logGetFromIdx idx = .thrown ↔ log = [] ∨ idx < 0 ∨ (log.length : Int) < idx := by
  unfold logGetFromIdx subscript
  constructor
  · intro thrown
    split at thrown
    · assumption
    · split at thrown
      · split at thrown <;> cases thrown
      · cases thrown
  · intro refused
    rw [if_pos refused]

/-- A fetch is undefined exactly at index zero of a nonempty log: the test lets zero pass,
and the subscript is one less. -/
theorem logGetFromIdx_eq_undefined_iff (log : RaftLogger) (idx : Int) :
    log.logGetFromIdx idx = .undefined ↔ log ≠ [] ∧ idx = 0 := by
  unfold logGetFromIdx subscript
  constructor
  · intro undefined
    split at undefined
    · cases undefined
    · rename_i accepted
      push Not at accepted
      refine ⟨accepted.1, ?_⟩
      split at undefined
      · split at undefined
        · cases undefined
        · rename_i outside
          rw [List.getElem?_eq_none_iff] at outside
          omega
      · omega
  · rintro ⟨nonempty, rfl⟩
    rw [if_neg (by simp [nonempty]), if_neg (by omega)]

/-- A fetch returns exactly the entries of the log, which are counted from one. -/
theorem logGetFromIdx_eq_returned_iff (log : RaftLogger) (idx : Int) (entry : RaftEntry) :
    log.logGetFromIdx idx = .returned entry ↔ log.entryAt? idx = some entry := by
  unfold logGetFromIdx subscript entryAt?
  constructor
  · intro returned
    split at returned
    · cases returned
    · split at returned
      · split at returned
        · cases returned
          rw [if_pos (by omega)]
          assumption
        · cases returned
      · cases returned
  · intro found
    split at found
    · have inside := (List.getElem?_eq_some_iff.mp found).1
      have nonempty : log ≠ [] := List.ne_nil_of_length_pos (by omega)
      rw [if_neg (by simp only [nonempty, false_or]; omega), if_pos (by omega), found]
    · cases found

/-- A deletion is undefined exactly if it starts before the first position of the vector or after
its end; it throws on no index. -/
theorem logDelete_eq_undefined_iff (log : RaftLogger) (idx : Int) :
    log.logDelete idx = .undefined ↔ idx < 1 ∨ (log.length : Int) + 1 < idx := by
  unfold logDelete
  constructor
  · intro undefined
    split at undefined
    · cases undefined
    · omega
  · intro outside
    rw [if_neg (by omega)]

/-- An index that the test of `log_get_from_idx` refuses. -/
def Refuses (log : RaftLogger) (idx : Int) : Prop :=
  log = [] ∨ idx < 0 ∨ (log.length : Int) < idx

instance (log : RaftLogger) (idx : Int) : Decidable (log.Refuses idx) :=
  inferInstanceAs (Decidable (_ ∨ _ ∨ _))

/-- A fetch finds an entry, refuses the index, or subscripts before the first element. -/
inductive Fetch (log : RaftLogger) (idx : Int) : Prop where
  | found (entry : RaftEntry) (inside : log.entryAt? idx = some entry)
      (fetched : log.logGetFromIdx idx = .returned entry)
  | refused (outside : log.Refuses idx) (fetched : log.logGetFromIdx idx = .thrown)
  | before (nonempty : log ≠ []) (zero : idx = 0) (fetched : log.logGetFromIdx idx = .undefined)

/-- A fetch never runs into a loop bound. -/
theorem logGetFromIdx_ne_diverged (log : RaftLogger) (idx : Int) :
    log.logGetFromIdx idx ≠ .diverged := by
  unfold logGetFromIdx subscript
  split
  · simp
  · split
    · split <;> simp
    · simp

/-- Every fetch has one of three ends: the entry, the exception for an index that the test
refuses, or, at index zero, an access before the first element. -/
theorem fetch (log : RaftLogger) (idx : Int) : Fetch log idx := by
  cases fetched : log.logGetFromIdx idx with
  | returned entry => exact .found entry ((logGetFromIdx_eq_returned_iff _ _ _).mp fetched) fetched
  | thrown => exact .refused ((logGetFromIdx_eq_thrown_iff _ _).mp fetched) fetched
  | undefined =>
      obtain ⟨nonempty, zero⟩ := (logGetFromIdx_eq_undefined_iff _ _).mp fetched
      exact .before nonempty zero fetched
  | diverged => exact absurd fetched (logGetFromIdx_ne_diverged log idx)

/-- An index with an entry is not refused. -/
theorem Refuses.not_found {log : RaftLogger} {idx : Int} {entry : RaftEntry}
    (outside : log.Refuses idx) (found : log.entryAt? idx = some entry) : False := by
  rw [← logGetFromIdx_eq_returned_iff, (logGetFromIdx_eq_thrown_iff _ _).mpr outside] at found
  cases found

/-- The index of an entry lies in the log. -/
theorem entryAt?_eq_some_bounds {log : RaftLogger} {idx : Int} {entry : RaftEntry}
    (found : log.entryAt? idx = some entry) : 1 ≤ idx ∧ idx ≤ log.length := by
  unfold entryAt? at found
  split at found
  · have inside := (List.getElem?_eq_some_iff.mp found).1
    omega
  · cases found

/-- What is found in a log is one of its entries. -/
theorem mem_of_entryAt? {log : RaftLogger} {idx : Int} {entry : RaftEntry}
    (found : log.entryAt? idx = some entry) : entry ∈ log := by
  unfold entryAt? at found
  split at found
  · exact List.mem_of_getElem? found
  · cases found

/-- An entry of a prefix is the entry of the log at the same index. -/
theorem entryAt?_of_isPrefix {kept log : RaftLogger} {idx : Int} {entry : RaftEntry}
    (keeps : kept <+: log) (found : kept.entryAt? idx = some entry) :
    log.entryAt? idx = some entry := by
  obtain ⟨rest, rfl⟩ := keeps
  have bounds := entryAt?_eq_some_bounds found
  unfold entryAt? at found ⊢
  rw [if_pos bounds.1] at found ⊢
  rw [List.getElem?_append_left (by omega), found]

/-- An entry of a log extended by some entries is old or one of them. -/
theorem entryAt?_append {kept pushed : RaftLogger} {idx : Int} {entry : RaftEntry}
    (found : entryAt? (kept ++ pushed) idx = some entry) :
    (idx ≤ kept.length ∧ kept.entryAt? idx = some entry) ∨
      ((kept.length : Int) < idx ∧ idx ≤ kept.length + pushed.length ∧ entry ∈ pushed) := by
  have bounds := entryAt?_eq_some_bounds found
  rw [List.length_append, Int.natCast_add] at bounds
  unfold entryAt? at found ⊢
  rw [if_pos bounds.1] at found ⊢
  by_cases old : idx ≤ kept.length
  · rw [List.getElem?_append_left (by omega)] at found
    exact Or.inl ⟨old, found⟩
  · rw [List.getElem?_append_right (by omega)] at found
    exact Or.inr ⟨Int.not_le.mp old, bounds.2, List.mem_of_getElem? found⟩

/-- Writing the entry at an index of the log. -/
theorem entryAt?_set {log : RaftLogger} {idx : Int} (low : 1 ≤ idx) (high : idx ≤ log.length)
    (entry : RaftEntry) (other : Int) :
    entryAt? (log.set (idx - 1).toNat entry) other =
      if other = idx then some entry else log.entryAt? other := by
  unfold entryAt?
  by_cases same : other = idx
  · rw [if_pos same, same, if_pos low, List.getElem?_set_self (by omega)]
  · rw [if_neg same]
    split
    · rw [List.getElem?_set_ne (by omega)]
    · rfl

/-- Deleting after an index of the log keeps the entries up to it. -/
theorem logDelete_succ {log : RaftLogger} {idx : Int} (low : 0 ≤ idx) (high : idx ≤ log.length) :
    log.logDelete (idx + 1) = .returned (log.take idx.toNat) := by
  unfold logDelete
  rw [if_pos (by omega), Int.add_sub_cancel]

end RaftLogger

end CppRaft
