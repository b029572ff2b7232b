import CppRaft.Server.Inversion

/-!
# A follower under repeated and reordered messages

One leader's entries arrive as slices, in any order and any number of times. A
slice that starts after an entry of the follower cuts the follower's log there
before it is appended; a slice that starts at the beginning is appended to whatever
is there.
-/

namespace CppRaft

open Machine

/-- The contents of a list of entries stamped with a term. -/
def stamped (term : Int) (entries : List MsgEntry) : List (Int × Int × List UInt8) :=
  entries.map fun e => (term, e.intId, e.data)

/-- The stamp hides nothing of an entry. -/
theorem stamped_injective (term : Int) {first second : List MsgEntry}
    (same : stamped term first = stamped term second) : first = second := by
  refine List.map_injective_iff.mpr ?_ same
  intro e e' equal
  simp only [Prod.mk.injEq, true_and] at equal
  have id := MsgEntry.intId_inj equal.1
  cases e
  cases e'
  simp_all

/-- A prefix of stamped entries is a stamped prefix. -/
theorem stamped_isPrefix_iff (term : Int) (first second : List MsgEntry) :
    stamped term first <+: stamped term second ↔ first <+: second := by
  constructor
  · intro stampedFirst
    rw [List.prefix_iff_eq_take] at stampedFirst ⊢
    apply stamped_injective term
    simpa [stamped] using stampedFirst
  · exact fun smaller => smaller.map _

/-- The constructor of a log entry stamps the entry of the message. -/
theorem content_map_ofMsgEntry (term : Int) (entries : List MsgEntry) :
    (entries.map (RaftEntry.ofMsgEntry term)).map RaftEntry.content = stamped term entries := by
  simp [stamped]

/-- A message of `term` with the entries `i` up to `j` of a leader's list. -/
structure IsSlice (leaderLog : List MsgEntry) (term : Int) (ae : MsgAppendEntries) (i j : ℕ) :
    Prop where
  ordered : i ≤ j
  within : j ≤ leaderLog.length
  sameTerm : ae.term = term
  previous : ae.prevLogIdx = i
  previousTerm : 0 < i → ae.prevLogTerm = term
  entries : ae.entries = (leaderLog.take j).drop i

/-- The event delivers some slice. -/
def DeliversSlice {Node : Type} (leaderLog : List MsgEntry) (term : Int) (event : Event Node) :
    Prop :=
  ∃ asResponce node ae stack i j,
    event = .recvAppendentries asResponce node ae stack ∧ IsSlice leaderLog term ae i j

/-- Entries without id zero are all accepted. -/
theorem acceptedEntries_eq_self {entries : List MsgEntry} (valid : ∀ e ∈ entries, e.id ≠ 0) :
    acceptedEntries entries = entries := by
  unfold acceptedEntries
  rw [List.takeWhile_eq_self_iff]
  intro e member
  simp [MsgEntry.intId_eq_zero_iff, valid e member]

namespace IsSlice

variable {leaderLog : List MsgEntry} {term : Int} {ae : MsgAppendEntries} {i j : ℕ}

/-- A slice has as many entries as its bounds are apart. -/
theorem length_entries (slice : IsSlice leaderLog term ae i j) :
    (ae.entries.length : Int) = j - i := by
  have ordered := slice.ordered
  have within := slice.within
  rw [slice.entries, List.length_drop, List.length_take]
  omega

/-- A slice of entries without id zero is accepted as a whole. -/
theorem acceptedEntries_eq (slice : IsSlice leaderLog term ae i j)
    (valid : ∀ e ∈ leaderLog, e.id ≠ 0) : acceptedEntries ae.entries = ae.entries := by
  apply acceptedEntries_eq_self
  intro e member
  rw [slice.entries] at member
  exact valid e (List.mem_of_mem_take (List.mem_of_mem_drop member))

end IsSlice

namespace RaftServer

variable {Node : Type}

/-- The message fits the follower's log: from the beginning it carries the entries that come
next, and after an entry of the log it reaches at least as far as the log does. -/
def FitsLog (leaderLog : List MsgEntry) (s : RaftServer Node) : Event Node → Prop
  | .recvAppendentries _ _ ae _ =>
      (ae.prevLogIdx = 0 → ae.entries <+: leaderLog.drop s.log.length) ∧
        (0 < ae.prevLogIdx → ae.prevLogIdx ≤ s.log.length →
          (s.log.length : Int) ≤ ae.prevLogIdx + ae.entries.length)
  | _ => True

instance (leaderLog : List MsgEntry) (s : RaftServer Node) (event : Event Node) :
    Decidable (FitsLog leaderLog s event) := by
  cases_type Event <;> dsimp only [FitsLog] <;> infer_instance

/-- The step leaves a prefix of the leader's entries, no shorter than before. -/
def ExtendsPrefix (leaderLog : List MsgEntry) (term : Int) (t : Step Node) : Prop :=
  t.after.log.map RaftEntry.content <+: stamped term leaderLog ∧
    t.before.log.length ≤ t.after.log.length

/-- The follower holds the first entries of the leader. -/
structure Follows (leaderLog : List MsgEntry) (term : Int) (s : RaftServer Node) : Prop where
  reached : s.currentTerm ≤ term
  log : s.log = (leaderLog.take s.log.length).map (RaftEntry.ofMsgEntry term)

/-- A follower that holds the first entries of a leader holds no more than there are. -/
theorem Follows.length_le {leaderLog : List MsgEntry} {term : Int} {s : RaftServer Node}
    (follows : Follows leaderLog term s) : s.log.length ≤ leaderLog.length := by
  have length := congrArg List.length follows.log
  simp only [List.length_map, List.length_take] at length
  omega

/-- The log of a follower that holds the entries `first` of the leader. -/
theorem Follows.of_log {leaderLog first : List MsgEntry} {term : Int} {s : RaftServer Node}
    (reached : s.currentTerm ≤ term) (log : s.log = first.map (RaftEntry.ofMsgEntry term))
    (smaller : first <+: leaderLog) : Follows leaderLog term s where
  reached := reached
  log := by
    have taken : first = leaderLog.take first.length := List.prefix_iff_eq_take.mp smaller
    rw [log, List.length_map, ← taken]

/-- Every entry of such a log is dated with the leader's term. -/
theorem Follows.term_eq {leaderLog : List MsgEntry} {term : Int} {s : RaftServer Node}
    (follows : Follows leaderLog term s) {entry : RaftEntry} (member : entry ∈ s.log) :
    entry.term = term := by
  rw [follows.log] at member
  obtain ⟨source, -, rfl⟩ := List.mem_map.mp member
  rfl

/-- The entries a follower holds after a slice: appended to all it has, cut and appended, or
refused. -/
inductive Delivered (leaderLog : List MsgEntry) (held : ℕ) (ae : MsgAppendEntries) (i j : ℕ) :
    List MsgEntry → Prop where
  | appended (first : i = 0) : Delivered leaderLog held ae i j (leaderLog.take held ++ ae.entries)
  | cut (later : 0 < i) (inside : i ≤ held) : Delivered leaderLog held ae i j (leaderLog.take j)
  | refused (beyond : held < i) : Delivered leaderLog held ae i j (leaderLog.take held)

/-- Neither the beginning nor an entry of the log is refused: the follower holds what the
message refers to. -/
theorem Follows.exists_keeps {leaderLog : List MsgEntry} {term : Int} {s : RaftServer Node}
    {ae : MsgAppendEntries} {i j : ℕ} (follows : Follows leaderLog term s)
    (slice : IsSlice leaderLog term ae i j) (inside : i ≤ s.log.length) :
    ∃ kept, Keeps ae s.log kept := by
  have previous := slice.previous
  by_cases first : i = 0
  · exact ⟨_, .all (by omega)⟩
  · have within : i - 1 < s.log.length := by omega
    have found : s.log.entryAt? ae.prevLogIdx = some s.log[i - 1] := by
      rw [RaftLogger.entryAt?, if_pos (by omega), previous,
        show ((i : Int) - 1).toNat = i - 1 by omega]
      exact List.getElem?_eq_getElem within
    refine ⟨_, .upTo found ?_⟩
    rw [slice.previousTerm (by omega)]
    exact follows.term_eq (List.getElem_mem within)

/-- One delivery to a follower, with the three things that can become of its log. -/
theorem Follows.deliver {leaderLog : List MsgEntry} {term : Int} {s : RaftServer Node}
    {asResponce : Bool} {node : Node} {ae : MsgAppendEntries} {stack : Int × Int} {i j : ℕ}
    {effect : Effect (RaftServer Node) (Action Node)} (follows : Follows leaderLog term s)
    (valid : ∀ e ∈ leaderLog, e.id ≠ 0) (slice : IsSlice leaderLog term ae i j)
    (result : AppendResult asResponce node ae stack s effect) :
    ∃ after, Delivered leaderLog s.log.length ae i j after ∧
      effect.state.currentTerm ≤ term ∧
      effect.state.log = after.map (RaftEntry.ofMsgEntry term) := by
  have previous := slice.previous
  have sameTerm := slice.sameTerm
  cases result with
  | refused reason =>
      have conflict : deleteConflicts ae s.log = .returned none := by
        rcases reason with stale | conflict
        · have reached := follows.reached
          omega
        · exact conflict
      have beyond : s.log.length < i := by
        by_contra inside
        obtain ⟨kept, keeps⟩ := follows.exists_keeps slice (Nat.not_lt.mp inside)
        rw [deleteConflicts_of_keeps keeps] at conflict
        cases conflict
      refine ⟨_, .refused beyond, ?_, ?_⟩
      · rw [noticeLeader_currentTerm]
        exact follows.reached
      · rw [noticeLeader_log]
        exact follows.log
  | accepted kept _ _ keeps elapsed commit last applied _ =>
      simp only [acceptAppend, slice.acceptedEntries_eq valid, sameTerm]
      cases keeps with
      | all first =>
          refine ⟨_, .appended (by omega), Int.le_refl _, ?_⟩
          rw [List.map_append, ← follows.log]
      | upTo found _ =>
          have bounds := RaftLogger.entryAt?_eq_some_bounds found
          refine ⟨_, .cut (by omega) (by omega), Int.le_refl _, ?_⟩
          have front : (leaderLog.take s.log.length).take i = (leaderLog.take j).take i := by
            have ordered := slice.ordered
            rw [List.take_take, List.take_take]
            congr 1
            omega
          rw [previous, Int.toNat_natCast, follows.log, ← List.map_take, front, slice.entries,
            ← List.map_append, List.take_append_drop]

/-- What is held after a slice is a prefix no shorter than before exactly when the slice
fits. -/
theorem Delivered.fitsLog_iff {leaderLog after : List MsgEntry} {term : Int}
    {s : RaftServer Node} {asResponce : Bool} {node : Node} {ae : MsgAppendEntries}
    {stack : Int × Int} {i j : ℕ} (delivered : Delivered leaderLog s.log.length ae i j after)
    (slice : IsSlice leaderLog term ae i j) (held : s.log.length ≤ leaderLog.length) :
    FitsLog leaderLog s (.recvAppendentries asResponce node ae stack) ↔
      after <+: leaderLog ∧ s.log.length ≤ after.length := by
  have previous := slice.previous
  have within := slice.within
  have size := slice.length_entries
  simp only [FitsLog]
  cases delivered with
  | appended first =>
      have smaller : leaderLog.take s.log.length ++ ae.entries <+:
          leaderLog.take s.log.length ++ leaderLog.drop s.log.length ↔
            ae.entries <+: leaderLog.drop s.log.length :=
        List.prefix_append_right_inj _
      rw [List.take_append_drop] at smaller
      rw [smaller, List.length_append, List.length_take]
      constructor
      · exact fun fits => ⟨fits.1 (by omega), by omega⟩
      · exact fun extended => ⟨fun _ => extended.1, fun later => by omega⟩
  | cut later inside =>
      rw [List.length_take]
      constructor
      · intro fits
        have reaches := fits.2 (by omega) (by omega)
        exact ⟨List.take_prefix _ _, by omega⟩
      · exact fun extended => ⟨fun first => by omega, fun _ _ => by omega⟩
  | refused beyond =>
      rw [List.length_take]
      constructor
      · exact fun _ => ⟨List.take_prefix _ _, by omega⟩
      · exact fun _ => ⟨fun first => by omega, fun _ inside => by omega⟩

/-- A delivery extends the prefix exactly when the message fits: a message that reaches less
far than the log cuts it, and one that does not start at its end repeats entries. -/
theorem Follows.extendsPrefix_iff {leaderLog : List MsgEntry} {term : Int} {s : RaftServer Node}
    {asResponce : Bool} {node : Node} {ae : MsgAppendEntries} {stack : Int × Int} {i j : ℕ}
    {effect : Effect (RaftServer Node) (Action Node)} (follows : Follows leaderLog term s)
    (valid : ∀ e ∈ leaderLog, e.id ≠ 0) (slice : IsSlice leaderLog term ae i j)
    (result : AppendResult asResponce node ae stack s effect) :
    (ExtendsPrefix leaderLog term
        ⟨s, .recvAppendentries asResponce node ae stack, effect.state, effect.emitted⟩ ↔
      FitsLog leaderLog s (.recvAppendentries asResponce node ae stack)) ∧
    (FitsLog leaderLog s (.recvAppendentries asResponce node ae stack) →
      Follows leaderLog term effect.state) := by
  obtain ⟨after, delivered, reached, log⟩ := follows.deliver valid slice result
  have extends_iff : ExtendsPrefix leaderLog term
        ⟨s, .recvAppendentries asResponce node ae stack, effect.state, effect.emitted⟩ ↔
      after <+: leaderLog ∧ s.log.length ≤ after.length := by
    simp only [ExtendsPrefix, log, content_map_ofMsgEntry, stamped_isPrefix_iff, List.length_map]
  have fits_iff : FitsLog leaderLog s (.recvAppendentries asResponce node ae stack) ↔
      after <+: leaderLog ∧ s.log.length ≤ after.length :=
    delivered.fitsLog_iff slice follows.length_le
  exact ⟨extends_iff.trans fits_iff.symm,
    fun fits => .of_log reached log (fits_iff.mp fits).1⟩

variable [DecidableEq Node]

/-- A fresh follower in some term. -/
def fresh (config : Config Node) (start : Int) : RaftServer Node :=
  { init config with currentTerm := start }

/-- Deliveries that fit keep the follower on the leader's entries, and only those extend its
prefix. -/
theorem follows_of_fitting_run {config : Config Node} {start term : Int}
    {leaderLog : List MsgEntry} (valid : ∀ e ∈ leaderLog, e.id ≠ 0) (low : start ≤ term)
    {trace : List (Step Node)} {s : RaftServer Node}
    (run : (machine Node).Run (fresh config start) trace s)
    (slices : ∀ t ∈ trace, DeliversSlice leaderLog term t.event)
    (fits : ∀ t ∈ trace, FitsLog leaderLog t.before t.event) : Follows leaderLog term s := by
  apply run.invariant_along (fun _ s => Follows leaderLog term s) ⟨low, rfl⟩ ?_
    (along_of_forall (Q := fun t => DeliversSlice leaderLog term t.event ∧
      FitsLog leaderLog t.before t.event) fun t member => ⟨slices t member, fits t member⟩)
  intro trace s event effect _ follows stepped conditions
  obtain ⟨⟨asResponce, node, ae, stack, i, j, delivery, slice⟩, fitting⟩ := conditions
  simp only at delivery
  subst delivery
  exact (follows.extendsPrefix_iff valid slice (recvAppendentries_effect? stepped)).2 fitting

/-- In every run of deliveries to a fresh follower, each leaves a prefix of the leader's entries
that is no shorter than before if and only if each message fits the log it meets. -/
theorem deliveries_extend_prefix_iff (config : Config Node) (start term : Int)
    (leaderLog : List MsgEntry) (valid : ∀ e ∈ leaderLog, e.id ≠ 0) (low : start ≤ term)
    (trace : List (Step Node)) (s : RaftServer Node)
    (run : (machine Node).Run (fresh config start) trace s)
    (slices : ∀ t ∈ trace, DeliversSlice leaderLog term t.event) :
    (∀ t ∈ trace, ExtendsPrefix leaderLog term t) ↔
      ∀ t ∈ trace, FitsLog leaderLog t.before t.event := by
  induction run with
  | nil => simp
  | @snoc trace s event effect earlier stepped ih =>
      simp only [List.mem_append, List.mem_singleton, or_imp, forall_and, forall_eq] at slices ⊢
      obtain ⟨earlierSlices, asResponce, node, ae, stack, i, j, delivery, slice⟩ := slices
      subst delivery
      rw [ih earlierSlices]
      apply and_congr_right
      intro fits
      have follows := follows_of_fitting_run valid low earlier earlierSlices fits
      exact (follows.extendsPrefix_iff valid slice (recvAppendentries_effect? stepped)).1

/-- Two entries of a leader. -/
def twoEntries : List MsgEntry :=
  [⟨1, [1]⟩, ⟨2, [2]⟩]

/-- Its first entry, in term 3. -/
def firstEntry (leader : Node) : Event Node :=
  .recvAppendentries true leader ⟨3, 0, 0, 0, [⟨1, [1]⟩], by decide⟩ (0, 0)

/-- Its second entry. -/
def secondEntry (leader : Node) : Event Node :=
  .recvAppendentries true leader ⟨3, 1, 3, 0, [⟨2, [2]⟩], by decide⟩ (0, 0)

omit [DecidableEq Node] in
/-- The first message delivers a slice. -/
theorem deliversSlice_firstEntry (leader : Node) :
    DeliversSlice twoEntries 3 (firstEntry leader) :=
  ⟨_, _, _, _, 0, 1, rfl, by decide, by decide, rfl, rfl, by decide, rfl⟩

omit [DecidableEq Node] in
/-- So does the second, which refers to the entry before. -/
theorem deliversSlice_secondEntry (leader : Node) :
    DeliversSlice twoEntries 3 (secondEntry leader) :=
  ⟨_, _, _, _, 1, 2, rfl, by decide, by decide, rfl, rfl, fun _ => rfl, rfl⟩

/-- Two entries that come in order extend the prefix one by one. -/
theorem deliveries_extend_prefix_in_order :
    (stateOf (machine (Fin 3)) (fresh (.member 0) 2) [firstEntry 1, secondEntry 1]).log.length = 2 ∧
      ∀ t ∈ traceOf (machine (Fin 3)) (fresh (.member 0) 2) [firstEntry 1, secondEntry 1],
        ExtendsPrefix twoEntries 3 t := by
  refine ⟨by decide, (deliveries_extend_prefix_iff (.member 0) 2 3 twoEntries (by decide)
    (by decide) _ _ (run_traceOf (machine (Fin 3)) _ [firstEntry 1, secondEntry 1] (by decide))
    ?_).mpr (by decide)⟩
  intro t member
  have event := event_mem_of_mem_traceOf member
  simp only [List.mem_cons, List.not_mem_nil, or_false] at event
  rcases event with first | second
  · exact first ▸ deliversSlice_firstEntry 1
  · exact second ▸ deliversSlice_secondEntry 1

/-- The first entry is appended a second time when its message is delivered again. -/
theorem repeated_delivery_breaks_prefix :
    (machine (Fin 3)).Run (fresh (.member 0) 2)
        (traceOf (machine (Fin 3)) (fresh (.member 0) 2) [firstEntry 1, firstEntry 1])
        (stateOf (machine (Fin 3)) (fresh (.member 0) 2) [firstEntry 1, firstEntry 1]) ∧
      DeliversSlice twoEntries 3 (firstEntry (1 : Fin 3)) ∧
      ¬(stateOf (machine (Fin 3)) (fresh (.member 0) 2) [firstEntry 1, firstEntry 1]).log.map
        RaftEntry.content <+: stamped 3 twoEntries :=
  ⟨run_traceOf _ _ _ (by decide), deliversSlice_firstEntry 1, by decide⟩

end RaftServer

end CppRaft
