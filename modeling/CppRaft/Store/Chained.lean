import CppRaft.Store.Linked

/-!
# Chains of a hash table in a memory

A table of heads with one doubly linked chain behind each of them. `Chained` says that the
chains hold exactly the given entries, each in the bucket of what it carries and the newest first.
A new entry becomes the head of its chain, an entry is taken out wherever it is, and memory that
belongs to other tables is left alone.
-/

namespace CppRaft

namespace Store

namespace Heap

variable {P α : Type}

/-- The cells of the entries in a bucket, in the order of the entries. -/
def chainOf (bucket : α → ℕ) (index : ℕ) (entries : List (P × α)) : List P :=
  (entries.filter fun e => decide (bucket e.2 = index)).map Prod.fst

section ChainOf

variable {bucket : α → ℕ} {index : ℕ} {entries : List (P × α)}

/-- A cell is in the chain of its bucket. -/
theorem mem_chainOf {p : P} :
    p ∈ chainOf bucket index entries ↔ ∃ e ∈ entries, bucket e.2 = index ∧ e.1 = p := by
  simp only [chainOf, List.mem_map, List.mem_filter, decide_eq_true_eq, and_assoc]

/-- Chains of lists of entries can be put together. -/
theorem chainOf_append (first second : List (P × α)) :
    chainOf bucket index (first ++ second) =
      chainOf bucket index first ++ chainOf bucket index second := by
  rw [chainOf, List.filter_append, List.map_append]
  rfl

/-- A new entry is at the head of its chain. -/
theorem chainOf_cons_self (p : P) (a : α) :
    chainOf bucket (bucket a) ((p, a) :: entries) = p :: chainOf bucket (bucket a) entries := by
  simp [chainOf]

/-- A new entry is in no other chain. -/
theorem chainOf_cons_of_ne {a : α} (other : bucket a ≠ index) (p : P) :
    chainOf bucket index ((p, a) :: entries) = chainOf bucket index entries := by
  simp [chainOf, other]

/-- A chain is no longer than the list of entries. -/
theorem length_chainOf_le : (chainOf bucket index entries).length ≤ entries.length := by
  rw [chainOf, List.length_map]
  exact List.length_filter_le _ _

/-- A chain has no cell twice. -/
theorem nodup_chainOf (distinct : (entries.map Prod.fst).Nodup) :
    (chainOf bucket index entries).Nodup :=
  distinct.sublist (List.filter_sublist.map _)

/-- An entry splits its chain. -/
theorem chainOf_middle_self (before after : List (P × α)) (p : P) (a : α) :
    chainOf bucket (bucket a) (before ++ (p, a) :: after) =
      chainOf bucket (bucket a) before ++ p :: chainOf bucket (bucket a) after := by
  rw [chainOf_append, chainOf_cons_self]

/-- Taking an entry out leaves the other chains alone. -/
theorem chainOf_middle_of_ne {a : α} (other : bucket a ≠ index) (before after : List (P × α))
    (p : P) : chainOf bucket index (before ++ (p, a) :: after) =
      chainOf bucket index (before ++ after) := by
  rw [chainOf_append, chainOf_cons_of_ne other, chainOf_append]

/-- A cell without an entry is in no chain. -/
theorem notMem_chainOf_of_notMem {p : P} (outside : p ∉ entries.map Prod.fst) :
    p ∉ chainOf bucket index entries := by
  intro inChain
  obtain ⟨e, member, -, rfl⟩ := mem_chainOf.mp inChain
  exact outside (List.mem_map_of_mem member)

/-- A cell is in the chain of its own bucket only. -/
theorem notMem_chainOf (distinct : (entries.map Prod.fst).Nodup) {e : P × α} (member : e ∈ entries)
    (other : bucket e.2 ≠ index) : e.1 ∉ chainOf bucket index entries := by
  intro chained
  obtain ⟨e', listed, hashed, same⟩ := mem_chainOf.mp chained
  rw [List.inj_on_of_nodup_map distinct listed member same] at hashed
  exact other hashed

/-- The first cell of a chain that passes a test. -/
theorem find?_chainOf {h : Heap P α} (data : ∀ e ∈ entries, h.dataAt e.1 = some e.2)
    (test : α → Bool) :
    (chainOf bucket index entries).find? (fun p => (h.dataAt p).any test) =
      (entries.find? fun e => decide (bucket e.2 = index) && test e.2).map Prod.fst := by
  induction entries with
  | nil => rfl
  | cons e rest ih =>
      obtain ⟨p, a⟩ := e
      have later := ih fun e member => data e (List.mem_cons_of_mem _ member)
      by_cases same : bucket a = index
      · subst same
        rw [chainOf_cons_self, List.find?_cons, List.find?_cons, data (p, a) List.mem_cons_self,
          Option.any_some, later, decide_eq_true rfl, Bool.true_and]
        cases test a <;> rfl
      · rw [chainOf_cons_of_ne same, later, List.find?_cons, decide_eq_false same, Bool.false_and]

end ChainOf

/-- The chains behind the heads hold exactly these entries. -/
structure Chained (h : Heap P α) (heads : ℕ → Option P) (bucket : α → ℕ)
    (entries : List (P × α)) : Prop where
  distinct : (entries.map Prod.fst).Nodup
  data : ∀ e ∈ entries, h.dataAt e.1 = some e.2
  linked : ∀ index, h.Linked none (chainOf bucket index entries) none
  heads : ∀ index, heads index = (chainOf bucket index entries).head?

namespace Chained

variable {h h' : Heap P α} {heads : ℕ → Option P} {bucket : α → ℕ} {entries : List (P × α)}

/-- A table of null pointers. -/
theorem empty (h : Heap P α) (bucket : α → ℕ) : Chained h (fun _ => none) bucket [] where
  distinct := List.nodup_nil
  data _ member := absurd member List.not_mem_nil
  linked _ := trivial
  heads _ := rfl

/-- Chains are read off their own cells. -/
theorem congr (chained : Chained h heads bucket entries)
    (same : ∀ p ∈ entries.map Prod.fst, h' p = h p) : Chained h' heads bucket entries where
  distinct := chained.distinct
  data e member := by
    rw [dataAt, same e.1 (List.mem_map_of_mem member)]
    exact chained.data e member
  linked index := by
    refine (chained.linked index).congr fun p inChain => same p ?_
    obtain ⟨e, member, -, rfl⟩ := mem_chainOf.mp inChain
    exact List.mem_map_of_mem member
  heads := chained.heads

/-- Cells that are not allocated belong to no entry. -/
theorem notMem (chained : Chained h heads bucket entries) {p : P} (free : h p = none) :
    p ∉ entries.map Prod.fst := by
  intro member
  obtain ⟨e, listed, rfl⟩ := List.mem_map.mp member
  cases (chained.data e listed).symm.trans (dataAt_eq_none_iff.mpr free)

/-- Searching the chain of a bucket finds the first entry there that passes the test. -/
theorem search_eq (chained : Chained h heads bucket entries) (index : ℕ) (test : α → Bool)
    {bound : ℕ} (enough : entries.length ≤ bound) :
    h.search test bound (heads index) =
      some ((entries.find? fun e => decide (bucket e.2 = index) && test e.2).map Prod.fst) := by
  have short : (chainOf bucket index entries).length ≤ bound :=
    Nat.le_trans length_chainOf_le enough
  rw [chained.heads, (chained.linked index).search_eq _ _ short, find?_chainOf chained.data]

/-- A test that only entries of one bucket pass is made in the chain of that bucket. -/
theorem search_own (chained : Chained h heads bucket entries) {index : ℕ} {test : α → Bool}
    (own : ∀ a, test a = true → bucket a = index) {bound : ℕ} (enough : entries.length ≤ bound) :
    h.search test bound (heads index) =
      some ((entries.find? fun e => test e.2).map Prod.fst) := by
  have same : (fun e : P × α => decide (bucket e.2 = index) && test e.2) = fun e => test e.2 := by
    funext e
    cases passes : test e.2 with
    | false => exact Bool.and_false _
    | true => rw [decide_eq_true (own e.2 passes), Bool.true_and]
  rw [chained.search_eq index test enough, same]

/-- If the chain of one bucket is relinked, the others stay linked. -/
theorem linked_of_others (chained : Chained h heads bucket entries) {entries' : List (P × α)}
    {index : ℕ}
    (others : ∀ other, index ≠ other → chainOf bucket other entries' = chainOf bucket other entries)
    (linked : h'.Linked none (chainOf bucket index entries') none)
    (kept : ∀ e ∈ entries, bucket e.2 ≠ index → h' e.1 = h e.1) (other : ℕ) :
    h'.Linked none (chainOf bucket other entries') none := by
  by_cases same : index = other
  · subst same
    exact linked
  · rw [others other same]
    refine (chained.linked other).congr fun q inChain => ?_
    obtain ⟨e, member, hashed, rfl⟩ := mem_chainOf.mp inChain
    exact kept e member fun here => same (here.symm.trans hashed)

variable [DecidableEq P]

/-- A new cell becomes the head of its chain, and the old head gets it as its predecessor.
The other chains are not touched, as a cell is in one chain only. -/
theorem insert (chained : Chained h heads bucket entries) {p : P}
    (fresh : p ∉ entries.map Prod.fst) (a : α) :
    ∃ h', (h.alloc p ⟨none, heads (bucket a), a⟩).setPrev (heads (bucket a)) (some p) = some h' ∧
      Chained h' (Function.update heads (bucket a) (some p)) bucket ((p, a) :: entries) ∧
      ∀ q, q ∉ ((p, a) :: entries).map Prod.fst → h' q = h q := by
  have here : h.alloc p ⟨none, heads (bucket a), a⟩ p =
      some ⟨none, (chainOf bucket (bucket a) entries).head?, a⟩ := by
    rw [alloc, Function.update_self, chained.heads]
  have outside : p ∉ chainOf bucket (bucket a) entries := notMem_chainOf_of_notMem fresh
  obtain ⟨h', assigned, linked, relinks⟩ :=
    ((chained.linked (bucket a)).update outside _).link_head (nodup_chainOf chained.distinct)
      outside here
  have elsewhere {q : P} (other : q ≠ p) (unlisted : q ∉ chainOf bucket (bucket a) entries) :
      h' q = h q :=
    (relinks.others q unlisted).trans (Function.update_of_ne other _ _)
  have different {e : P × α} (member : e ∈ entries) : e.1 ≠ p := fun same =>
    fresh (same ▸ List.mem_map_of_mem member)
  refine ⟨h', by rw [chained.heads]; rwa [chained.heads] at assigned, ⟨?_, ?_, ?_, ?_⟩, ?_⟩
  · exact List.nodup_cons.mpr ⟨fresh, chained.distinct⟩
  · intro e member
    rcases List.mem_cons.mp member with rfl | old
    · rw [relinks.data]
      exact congrArg (Option.map Cell.data) here
    · rw [relinks.data]
      exact (dataAt_update_of_ne (different old) _).trans (chained.data e old)
  · refine chained.linked_of_others (fun _ other => chainOf_cons_of_ne other p) ?_
      fun e member other => ?_
    · rwa [chainOf_cons_self]
    · exact elsewhere (different member) (notMem_chainOf chained.distinct member other)
  · intro index
    by_cases same : bucket a = index
    · subst same
      rw [Function.update_self, chainOf_cons_self, List.head?_cons]
    · rw [Function.update_of_ne (Ne.symm same), chainOf_cons_of_ne same, chained.heads]
  · intro q unlisted
    rw [List.map_cons, List.mem_cons, not_or] at unlisted
    exact elsewhere unlisted.1 (notMem_chainOf_of_notMem unlisted.2)

/-- The heads after an entry is taken out: the bucket points to the next cell if the entry
was its head. -/
theorem heads_remove {before after : List (P × α)} {p : P} {a : α}
    (chained : Chained h heads bucket (before ++ (p, a) :: after)) (index : ℕ) :
    (if some p = heads (bucket a) then
        Function.update heads (bucket a) (chainOf bucket (bucket a) after).head?
      else heads) index = (chainOf bucket index (before ++ after)).head? := by
  by_cases hashed : bucket a = index
  · subst hashed
    have head := chained.heads (bucket a)
    have distinct : (chainOf bucket (bucket a) (before ++ (p, a) :: after)).Nodup :=
      nodup_chainOf chained.distinct
    rw [chainOf_middle_self] at head distinct
    rw [chainOf_append, ← head?_unlink distinct, head]
    split
    · rw [Function.update_self]
    · exact head
  · rw [← chainOf_middle_of_ne hashed before after p, ← chained.heads]
    split
    · rw [Function.update_of_ne (Ne.symm hashed)]
    · rfl

/-- An entry is taken out of its chain; its neighbours may be linked a second time, as the
source does. -/
theorem remove {before after : List (P × α)} {p : P} {a : α}
    (chained : Chained h heads bucket (before ++ (p, a) :: after)) :
    ∃ cell h', h p = some cell ∧ h.unlink p = some h' ∧ h'.unlink p = some h' ∧
      Chained (h'.free p)
        (if some p = heads (bucket a) then Function.update heads (bucket a) cell.next else heads)
        bucket (before ++ after) ∧
      ∀ q, q ∉ (before ++ (p, a) :: after).map Prod.fst → h'.free p q = h q := by
  have linked := chained.linked (bucket a)
  have distinct : (chainOf bucket (bucket a) (before ++ (p, a) :: after)).Nodup :=
    nodup_chainOf chained.distinct
  rw [chainOf_middle_self] at linked distinct
  obtain ⟨data, cell⟩ := linked.cell_of_whole
  obtain ⟨h', unlinked, linked', same, relinks⟩ := linked.unlink_mem distinct
  have fewer := sublist_middle before after (p, a)
  have unique : p ∉ (before ++ after).map Prod.fst := notMem_map_middle chained.distinct
  have elsewhere {q : P} (other : q ≠ p)
      (unlisted : q ∉ chainOf bucket (bucket a) (before ++ after)) : h'.free p q = h q := by
    rw [chainOf_append] at unlisted
    exact (Function.update_of_ne other _ _).trans (relinks.others q unlisted)
  refine ⟨_, h', cell, unlinked, linked'.unlink_again (same.trans cell),
    ⟨?_, ?_, ?_, chained.heads_remove⟩, ?_⟩
  · exact chained.distinct.sublist (fewer.map _)
  · intro e member
    have other : e.1 ≠ p := fun same => unique (same ▸ List.mem_map_of_mem member)
    rw [free, dataAt_update_of_ne other, relinks.data]
    exact chained.data e (fewer.subset member)
  · refine chained.linked_of_others
      (fun _ other => (chainOf_middle_of_ne other before after p).symm) ?_ fun e member other => ?_
    · have removed : p ∉ chainOf bucket (bucket a) (before ++ after) :=
        notMem_chainOf_of_notMem unique
      rw [chainOf_append] at removed ⊢
      exact linked'.update removed _
    · have unlisted := notMem_chainOf chained.distinct member other
      rw [chainOf_middle_self, List.mem_append, List.mem_cons, not_or, not_or] at unlisted
      refine elsewhere unlisted.2.1 ?_
      rw [chainOf_append, List.mem_append, not_or]
      exact ⟨unlisted.1, unlisted.2.2⟩
  · intro q outside
    have other : q ≠ p := by
      rintro rfl
      exact outside (List.mem_map_of_mem (List.mem_append_right before List.mem_cons_self))
    exact elsewhere other
      (notMem_chainOf_of_notMem fun inRest => outside ((fewer.map _).subset inRest))

end Chained

end Heap

end Store

end CppRaft
