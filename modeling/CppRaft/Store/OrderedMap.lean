import Mathlib.Data.List.Nodup

/-!
# Maps that remember the order of insertion

An association list in which every key occurs once. Inserting adds at the end and
leaves a key that is there alone.
-/

namespace CppRaft

namespace Store

/-- Taking out the elements with the value of one takes out that one. -/
theorem filter_ne_middle {α β : Type} [DecidableEq β] (f : α → β) {before after : List α}
    {x : α} (distinct : ((before ++ x :: after).map f).Nodup) :
    (before ++ x :: after).filter (fun y => decide (f y ≠ f x)) = before ++ after := by
  rw [List.map_append, List.map_cons] at distinct
  have apart := (List.nodup_cons.mp (List.nodup_middle.mp distinct)).1
  rw [← List.map_append] at apart
  have kept : ∀ y ∈ before ++ after, f y ≠ f x := fun y member same =>
    apart (same ▸ List.mem_map_of_mem member)
  rw [List.filter_append, List.filter_cons_of_neg (by simp), ← List.filter_append]
  exact List.filter_eq_self.mpr fun y member => decide_eq_true (kept y member)

/-- A finite map with its entries in the order of insertion. -/
structure OrderedMap (κ ν : Type) where
  entries : List (κ × ν)
  distinct : (entries.map Prod.fst).Nodup

namespace OrderedMap

variable {κ ν : Type}

/-- The map without entries. -/
def empty : OrderedMap κ ν :=
  ⟨[], List.nodup_nil⟩

/-- The keys, in the order of insertion. -/
def keys (m : OrderedMap κ ν) : List κ :=
  m.entries.map Prod.fst

/-- The values, in the order of insertion. -/
def values (m : OrderedMap κ ν) : List ν :=
  m.entries.map Prod.snd

/-- Two maps with the same entries in the same order are equal: the proof that keys are
distinct carries no data. -/
theorem ext_entries {m n : OrderedMap κ ν} (same : m.entries = n.entries) : m = n := by
  cases m
  cases n
  cases same
  rfl

/-- An entry is determined by its key. -/
theorem value_unique (m : OrderedMap κ ν) {k : κ} {v w : ν} (first : (k, v) ∈ m.entries)
    (second : (k, w) ∈ m.entries) : v = w :=
  congrArg Prod.snd (List.inj_on_of_nodup_map m.distinct first second rfl)

private theorem distinct_filter (m : OrderedMap κ ν) (keep : κ × ν → Bool) :
    ((m.entries.filter keep).map Prod.fst).Nodup :=
  m.distinct.sublist (List.filter_sublist.map Prod.fst)

private theorem distinct_append (m : OrderedMap κ ν) {k : κ} (v : ν) (fresh : k ∉ m.keys) :
    ((m.entries ++ [(k, v)]).map Prod.fst).Nodup := by
  rw [List.map_append, List.map_singleton, List.nodup_append_comm]
  exact List.nodup_cons.mpr ⟨fresh, m.distinct⟩

/-- The entries that pass a test. -/
def filter (m : OrderedMap κ ν) (keep : κ × ν → Bool) : OrderedMap κ ν :=
  ⟨m.entries.filter keep, m.distinct_filter keep⟩

/-- Remove the entries with a value. -/
def eraseValue [DecidableEq ν] (m : OrderedMap κ ν) (v : ν) : OrderedMap κ ν :=
  m.filter fun e => decide (e.2 ≠ v)

/-- A value that one key has is removed with that key. -/
theorem entries_eraseValue [DecidableEq ν] (m : OrderedMap κ ν) {before after : List (κ × ν)}
    {e : κ × ν} (split : m.entries = before ++ e :: after) (distinct : m.values.Nodup) :
    (m.eraseValue e.2).entries = before ++ after := by
  rw [values, split] at distinct
  exact (congrArg (List.filter _) split).trans (filter_ne_middle Prod.snd distinct)

variable [DecidableEq κ]

/-- The value of a key. -/
def find? (m : OrderedMap κ ν) (k : κ) : Option ν :=
  (m.entries.find? fun e => decide (e.1 = k)).map Prod.snd

/-- Add a key that is not there. -/
def insert (m : OrderedMap κ ν) (k : κ) (v : ν) : OrderedMap κ ν :=
  if fresh : k ∉ m.keys then ⟨m.entries ++ [(k, v)], m.distinct_append v fresh⟩ else m

/-- Remove a key. -/
def erase (m : OrderedMap κ ν) (k : κ) : OrderedMap κ ν :=
  m.filter fun e => decide (e.1 ≠ k)

/-- Lookup finds a value exactly if the entry is there; as keys are distinct, there is no
other entry for the key. -/
theorem find?_eq_some_iff (m : OrderedMap κ ν) (k : κ) (v : ν) :
    m.find? k = some v ↔ (k, v) ∈ m.entries := by
  constructor
  · intro found
    obtain ⟨⟨k', v'⟩, first, rfl⟩ := Option.map_eq_some_iff.mp found
    obtain rfl : k' = k := by simpa using List.find?_some first
    exact List.mem_of_find?_eq_some first
  · intro member
    cases first : m.entries.find? fun e => decide (e.1 = k) with
    | none =>
        have absent := List.find?_eq_none.mp first _ member
        simp at absent
    | some e =>
        obtain rfl : e.1 = k := by simpa using List.find?_some first
        rw [find?, first, Option.map_some, m.value_unique (List.mem_of_find?_eq_some first) member]

/-- Lookup fails exactly for a key that is not in the map. -/
theorem find?_eq_none_iff (m : OrderedMap κ ν) (k : κ) : m.find? k = none ↔ k ∉ m.keys := by
  rw [find?, Option.map_eq_none_iff, List.find?_eq_none, keys, List.mem_map]
  constructor
  · rintro absent ⟨e, member, rfl⟩
    exact absent e member (decide_eq_true rfl)
  · intro absent e member same
    exact absent ⟨e, member, of_decide_eq_true same⟩

/-- Inserting under a key that is present changes nothing: the first value stays. -/
theorem insert_of_mem (m : OrderedMap κ ν) {k : κ} (v : ν) (present : k ∈ m.keys) :
    m.insert k v = m := by
  rw [insert, dif_neg (not_not.mpr present)]

/-- A new entry goes to the end. -/
theorem entries_insert_of_notMem (m : OrderedMap κ ν) {k : κ} (v : ν) (fresh : k ∉ m.keys) :
    (m.insert k v).entries = m.entries ++ [(k, v)] := by
  rw [insert, dif_pos fresh]

/-- Erasing a key takes its entry out and keeps the order of the others. -/
theorem entries_erase (m : OrderedMap κ ν) {before after : List (κ × ν)} {e : κ × ν}
    (split : m.entries = before ++ e :: after) : (m.erase e.1).entries = before ++ after := by
  have distinct := m.distinct
  rw [split] at distinct
  exact (congrArg (List.filter _) split).trans (filter_ne_middle Prod.fst distinct)

/-- Erasing a key that is not in the map changes nothing. -/
theorem erase_of_notMem (m : OrderedMap κ ν) {k : κ} (absent : k ∉ m.keys) : m.erase k = m := by
  refine ext_entries (List.filter_eq_self.mpr fun e member => decide_eq_true ?_)
  rintro rfl
  exact absent (List.mem_map_of_mem member)

end OrderedMap

end Store

end CppRaft
