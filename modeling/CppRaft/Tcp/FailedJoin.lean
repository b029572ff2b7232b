import CppRaft.Tcp.Attempt

/-!
# Attempts to join that fail

An attempt that fails before it has added any nodes leaves the server as it was and closes its
descriptor. One that fails later destroys the nodes again, but not the pointer to the leader; and
the descriptor, which the tools of the seed share with it, is closed with them and once more.
-/

namespace CppRaft

namespace Tcp

open Machine

namespace Attempt

variable {seed : NodeIdentifierKey} {leaderIndex : Int}

/-- The attempt has closed nothing yet, and only the tools of the seed share its descriptor. -/
structure Shares (seed : NodeIdentifierKey) (descriptor : Int) (s : Attempt) : Prop where
  socket : s.socket = descriptor
  closed : s.closed = []
  destroy : ∀ key ∈ s.members.table.nodes,
    (s.tools key).destroy = if key = seed then closeC descriptor else []

/-- A node that is added was not there, and is the last one then. -/
theorem nodes_of_addNode? {key : NodeIdentifierKey} {s s' : Attempt}
    (added : s.addNode? key = some s') :
    key ∉ s.members.table.nodes ∧ s'.members.table.nodes = s.members.table.nodes ++ [key] := by
  rw [addNode?, NodeTable.addNode?] at added
  split at added
  · rename_i fresh
    rw [Option.map_some, Option.some.injEq] at added
    subst added
    exact ⟨fresh, rfl⟩
  · cases added

/-- A new node with its socket set, if it is the seed. -/
theorem setRaftSocket_new (key : NodeIdentifierKey) (members : Members) (s : Attempt) :
    setRaftSocket key { s with members := members, tools := Function.update s.tools key .new } =
      some
        { s with
          members := members
          tools := Function.update s.tools key
            ⟨Function.update NodeTools.new.sockets .raft s.socket, false⟩ } := by
  rw [setRaftSocket_eq]
  simp only [Function.update_self, Function.update_idem]
  rw [show closeC (NodeTools.new.sockets .raft) = [] from rfl, List.append_nil]
  rfl

/-- What a pass over a new key changes: the table, and the tools of the new node, which have
the socket of the connection if the node is the seed. -/
theorem added_of_addNode? {key : NodeIdentifierKey} {s s' : Attempt}
    (new : s.addNode? key = some s') (i : ℕ) :
    ∃ members tools,
      added seed leaderIndex i key s' =
        { s with members := members, tools := Function.update s.tools key tools } ∧
      members.table.nodes = s.members.table.nodes ++ [key] ∧
      tools.destroy = if key = seed then closeC s.socket else [] := by
  obtain ⟨_, nodes⟩ := nodes_of_addNode? new
  obtain ⟨table, _, rfl⟩ := Option.map_eq_some_iff.mp new
  simp only [added, setRaftSocket_new, Option.getD_some]
  by_cases own : key = seed
  · simp only [if_pos own]
    split
    · exact ⟨_, _, rfl, nodes, rfl⟩
    · exact ⟨_, _, rfl, nodes, rfl⟩
  · simp only [if_neg own]
    split
    · exact ⟨_, _, rfl, nodes, rfl⟩
    · exact ⟨_, _, rfl, nodes, rfl⟩

/-- A pass over a new key. -/
theorem Shares.added {descriptor : Int} {s s' : Attempt} (shares : Shares seed descriptor s)
    {key : NodeIdentifierKey} (new : s.addNode? key = some s') (i : ℕ) :
    Shares seed descriptor (added seed leaderIndex i key s') := by
  obtain ⟨members, tools, pass, nodes, destroy⟩ := added_of_addNode? new i
  rw [pass]
  refine ⟨shares.socket, shares.closed, fun other member => ?_⟩
  simp only [nodes, List.mem_append, List.mem_singleton] at member
  rcases member with old | rfl
  · have different : other ≠ key := by
      rintro rfl
      exact (nodes_of_addNode? new).1 old
    simp only [Function.update_of_ne different]
    exact shares.destroy other old
  · simp only [Function.update_self]
    rw [destroy, shares.socket]

/-- The loop over the listing hands the descriptor of the connection to the node of the
seed, and to no other. -/
theorem Shares.addKeys {descriptor : Int} {s : Attempt} (shares : Shares seed descriptor s) (i : ℕ)
    (keys : List NodeIdentifierKey) :
    Shares seed descriptor (addKeys seed leaderIndex i keys s) := by
  induction keys generalizing i s with
  | nil => exact shares
  | cons key keys ih =>
      rw [Attempt.addKeys]
      refine ih ?_ (i + 1)
      cases new : s.addNode? key with
      | none => exact shares
      | some s' => exact shares.added new i

/-- What an attempt that failed may leave: no node, no pointers to nodes, and a descriptor that
was closed once if it was opened. -/
structure NoTrace (descriptor : Int) (s : Attempt) : Prop where
  nodes : s.members.table.nodes = []
  thisNode : s.members.thisNode = none
  leaderNode : s.members.leaderNode = none
  closedOnce : 0 ≤ descriptor → s.closed.count descriptor = 1

/-- A connection delivers a complete listing of the cluster: the byte order mark, the index of the
leader, a number of nodes whose byte size fits, and the keys. -/
def Delivers (o : ByteOrder) (link : Link) (leaderIndex : Int) (keys : List NodeIdentifierKey) :
    Prop :=
  ∃ (mark : Block 2) (index number : Block 4) (count : ℕ)
    (nodesInfo : Block (count * sizeofNodeIdentifierKey)) (rest : List UInt8),
    link.input =
        mark.bytes ++ (index.bytes ++ (number.bytes ++ (nodesInfo.bytes ++ rest))) ∧
      8 ≤ link.capacity ∧
      receivedInt o (decide (mark ≠ endianMark o)) index.bytes = leaderIndex ∧
      receivedInt o (decide (mark ≠ endianMark o)) number.bytes = count ∧
      1 ≤ count ∧ count * sizeofNodeIdentifierKey < 2 ^ 31 ∧
      receivedKeys o (decide (mark ≠ endianMark o)) count nodesInfo = keys

/-- The attempt closes its descriptor once from here on and has not touched the members. -/
structure Early (members : Members) (descriptor : Int) (s : Attempt) : Prop where
  members : s.members = members
  closes : s.closed ++ closeC s.socket = closeC descriptor

/-- What a failing attempt closes: the sockets of the nodes that it has added, and then the
one of the connection. -/
theorem closed_fail (s : Attempt) :
    s.clearAllNodes.closeSocket.closed =
      s.closed ++ s.members.table.nodes.flatMap (fun key => (s.tools key).destroy) ++
        closeC s.socket :=
  rfl

/-- An open descriptor is closed once by `closeC`. -/
theorem count_closeC {descriptor : Int} (positive : 0 < descriptor) :
    (closeC descriptor).count descriptor = 1 := by
  rw [closeC_eq, if_pos positive, List.count_singleton_self]

/-- A failure before any node was added leaves no trace unless the descriptor is zero, which
`closeC` takes for none. -/
theorem Early.noTrace_iff {members : Members} {descriptor : Int} {s : Attempt}
    (early : Early members descriptor s) (empty : members.table.nodes = [])
    (noThis : members.thisNode = none) (noLeader : members.leaderNode = none) :
    s.clearAllNodes.closeSocket.NoTrace descriptor ↔ descriptor ≠ 0 := by
  have closed : s.clearAllNodes.closeSocket.closed = closeC descriptor := by
    rw [closed_fail, early.members, empty, List.flatMap_nil, List.append_nil, early.closes]
  constructor
  · rintro trace rfl
    have once := trace.closedOnce (Int.le_refl 0)
    rw [closed] at once
    exact absurd once (by decide)
  · intro opened
    refine ⟨rfl, (congrArg Members.thisNode early.members).trans noThis,
      (congrArg Members.leaderNode early.members).trans noLeader, fun nonneg => ?_⟩
    rw [closed, count_closeC (by omega)]

/-- The only one of the nodes whose tools close anything is the seed, whose socket is the
one of the connection. -/
theorem flatMap_destroy {nodes : List NodeIdentifierKey} (distinct : nodes.Nodup)
    {tools : NodeIdentifierKey → NodeTools} {closed : List Int}
    (destroy : ∀ key ∈ nodes, (tools key).destroy = if key = seed then closed else []) :
    nodes.flatMap (fun key => (tools key).destroy) = if seed ∈ nodes then closed else [] := by
  induction nodes with
  | nil => rfl
  | cons first nodes ih =>
      obtain ⟨new, distinct⟩ := List.nodup_cons.mp distinct
      obtain ⟨one, others⟩ := List.forall_mem_cons.mp destroy
      rw [List.flatMap_cons, one, ih distinct others]
      by_cases own : first = seed
      · subst own
        rw [if_pos rfl, if_neg new, if_pos List.mem_cons_self, List.append_nil]
      · rw [if_neg own, List.nil_append]
        refine if_congr ?_ rfl rfl
        rw [List.mem_cons, or_iff_right (Ne.symm own)]

/-- What a failure after the keys have been added leaves: the descriptor is closed twice if
the seed is in the listing, and the leader pointer is left on a node that was freed. -/
theorem noTrace_addKeys_iff {members : Members} {descriptor : Int} (nonneg : 0 ≤ descriptor)
    (empty : members.table.nodes = []) (noThis : members.thisNode = none)
    (noLeader : members.leaderNode = none) (keys : List NodeIdentifierKey) :
    (addKeys seed leaderIndex 0 keys
        (connected members descriptor)).clearAllNodes.closeSocket.NoTrace descriptor ↔
      descriptor ≠ 0 ∧ seed ∉ keys ∧
        ∀ key, keyAt leaderIndex 0 keys = some key → key ∈ keys.take leaderIndex.toNat := by
  generalize after : addKeys seed leaderIndex 0 keys (connected members descriptor) = s
  have first : Shares seed descriptor (connected members descriptor) := by
    refine ⟨rfl, rfl, fun key member => ?_⟩
    rw [connected, empty] at member
    cases member
  have shares : Shares seed descriptor s := after ▸ first.addKeys 0 keys
  have same : s.members = addReceived leaderIndex 0 keys members := after ▸ members_addKeys 0 keys _
  have listed : seed ∈ s.members.table.nodes ↔ seed ∈ keys := by
    rw [same, mem_addReceived, empty, or_iff_right List.not_mem_nil]
  have closed : s.clearAllNodes.closeSocket.closed =
      (if seed ∈ keys then closeC descriptor else []) ++ closeC descriptor := by
    rw [closed_fail, shares.closed, shares.socket,
      flatMap_destroy s.members.table.distinct shares.destroy, List.nil_append]
    simp only [listed]
  have leader : s.clearAllNodes.closeSocket.members.leaderNode = none ↔
      ∀ key, keyAt leaderIndex 0 keys = some key → key ∈ keys.take leaderIndex.toNat := by
    change s.members.leaderNode = none ↔ _
    rw [same, leaderNode_addReceived_eq_none_iff, and_iff_right noLeader, empty]
    simp only [List.not_mem_nil, false_or, Int.natCast_zero, Int.sub_zero]
  constructor
  · intro trace
    have once := trace.closedOnce nonneg
    rw [closed] at once
    refine ⟨?_, ?_, leader.mp trace.leaderNode⟩
    · rintro rfl
      split at once <;> exact absurd once (by decide)
    · intro member
      rw [if_pos member, List.count_append] at once
      omega
  · rintro ⟨opened, absent, repeated⟩
    refine ⟨rfl, ?_, leader.mpr repeated, fun _ => ?_⟩
    · change s.members.thisNode = none
      rw [same, thisNode_addReceived, noThis]
    · rw [closed, if_neg absent, List.nil_append, count_closeC (by omega)]

/-- If the attempt ends with a failure, it is the one of this state. -/
def FailsWith (s : Attempt) (tried : Tried) : Prop :=
  ∀ after, tried = .failed after → after = s.clearAllNodes.closeSocket

/-- The end of a failing attempt. -/
theorem failsWith_fail (s : Attempt) : s.FailsWith s.fail := by
  rintro _ ⟨⟩
  rfl

/-- After the loops every failure is one of the state that they left, as the rest of the
attempt only reads and writes. -/
theorem ends_sendExtraData (o : ByteOrder) (isEndianDiffer : Bool) (own : NodeIdentifierKey)
    (extraData : List UInt8) (s : Attempt) :
    (sendExtraData o isEndianDiffer own extraData s).Ends s.FailsWith := by
  have confirms : (confirmJoin o isEndianDiffer own s).Ends s.FailsWith := by
    refine ⟨fun request => ?_, failsWith_fail s⟩
    beta_reduce
    split
    · exact fun after absurdity => nomatch absurdity
    · split
      · refine (Dialogue.ends_true _).bind fun received _ => ?_
        cases received with
        | none => exact failsWith_fail s
        | some data => exact fun after absurdity => nomatch absurdity
      · exact failsWith_fail s
  refine ⟨⟨?_, failsWith_fail s⟩, failsWith_fail s⟩
  split
  · exact failsWith_fail s
  · exact confirms

section Run

variable {o : ByteOrder} {malloc : Int → Bool} {own : NodeIdentifierKey} {extraData : List UInt8}
  {members : Members} {descriptor : Int} {connects : Bool} {link rest : Link} {after : Attempt}

/-- After the connection is made the server has no nodes and the descriptor is open. -/
theorem early_connected : Early members descriptor (connected members descriptor) :=
  ⟨rfl, rfl⟩

/-- Also after the descriptor was closed. -/
theorem early_closeSocket : Early members descriptor (connected members descriptor).closeSocket :=
  ⟨rfl, List.append_nil _⟩

/-- An attempt whose connection was not made fails at once. -/
theorem tryFindClusterThredSafe_unconnected (unconnected : descriptor < 0 ∨ connects = false) :
    ∃ s, Early members descriptor s ∧
      tryFindClusterThredSafe o malloc own seed extraData descriptor connects (start members) =
        .done s.fail := by
  by_cases closed : descriptor < 0
  · have refused : (start members).connectC descriptor connects = (start members, false) := by
      rw [connectC, if_pos closed]
      rfl
    refine ⟨(start members).closeSocket, ⟨rfl, ?_⟩, ?_⟩
    · rw [closeC_eq descriptor, if_neg (by omega)]
      rfl
    · simp only [tryFindClusterThredSafe, connectAndGetEndian2, refused]
      rfl
  · have refused : (start members).connectC descriptor connects =
        (connected members descriptor, false) := by
      rw [connectC, if_neg closed, unconnected.resolve_left closed]
      rfl
    refine ⟨_, early_closeSocket, ?_⟩
    simp only [tryFindClusterThredSafe, connectAndGetEndian2, refused]
    rfl

/-- A failure of a state that is still early. -/
theorem early_of_failed {s : Attempt} (early : Early members descriptor s) {link : Link}
    (failed : (Dialogue.done s.fail).run link = some (.failed after, rest)) :
    ∃ s, Early members descriptor s ∧ after = s.clearAllNodes.closeSocket := by
  rw [Dialogue.run_done, Option.some.injEq, Prod.mk.injEq] at failed
  exact ⟨s, early, failsWith_fail s after failed.1⟩

private theorem small_of_cut {size count : Int} (small : size < 2 ^ 31) (positive : 1 ≤ count)
    (whole : count.toNat * 28 ≤ size.toNat) : count.toNat * 28 < 2 ^ 31 := by
  omega

/-- From the number of nodes on, an attempt that fails has not added any nodes or has received
all of them. -/
theorem receiveNodes_failed {isEndianDiffer : Bool} {count : Int} {s : Attempt}
    (failed : (receiveNodes o isEndianDiffer malloc own seed extraData leaderIndex count s).run
      link = some (.failed after, rest)) :
    after = s.clearAllNodes.closeSocket ∨
      1 ≤ count ∧ count.toNat * sizeofNodeIdentifierKey < 2 ^ 31 ∧
        count.toNat * sizeofNodeIdentifierKey ≤ link.input.length := by
  rw [receiveNodes, Dialogue.run_bind] at failed
  obtain ⟨⟨info, left⟩, received, failed⟩ := Option.bind_eq_some_iff.mp failed
  cases info with
  | abandoned =>
      rw [Dialogue.run_done, Option.some.injEq, Prod.mk.injEq] at failed
      exact Or.inl (failsWith_fail s after failed.1)
  | exited => cases failed
  | received nodesInfo =>
      obtain ⟨positive, _, nonneg, delivered, rfl, _⟩ := received_of_run received
      obtain ⟨small, size⟩ := keysSize_of_nonneg nonneg
      simp only at failed
      split at failed
      · cases failed
      · rename_i s' added
        have whole := (addReceivedNodes_isSome_iff o isEndianDiffer seed leaderIndex count.toNat 0
          _ _).mp (Option.isSome_of_eq_some added)
        rw [List.length_take_of_le delivered] at whole
        exact Or.inr ⟨positive, small_of_cut (size ▸ small) positive whole,
          Nat.le_trans whole delivered⟩

/-- An attempt that fails has received a complete listing, or has not added any nodes. There
is nothing in between, since the listing is read in one piece. -/
theorem delivers_or_early (nonneg : 0 ≤ descriptor)
    (failed : (tryFindClusterThredSafe o malloc own seed extraData descriptor true
      (start members)).run link = some (.failed after, rest)) :
    (∃ leaderIndex keys, Delivers o link leaderIndex keys) ∨
      ∃ s, Early members descriptor s ∧ after = s.clearAllNodes.closeSocket := by
  obtain ⟨_, capacity⟩ := link
  rw [tryFindClusterThredSafe_connected nonneg] at failed
  obtain ⟨mark, _, rfl, atRequest⟩ | short := Dialogue.run_read_cases failed
  swap
  · exact Or.inr (early_of_failed early_closeSocket short)
  obtain ⟨request, atPort⟩ | short := Dialogue.run_write_cases atRequest
  swap
  · exact Or.inr (early_of_failed early_closeSocket short)
  obtain ⟨port, atIndex⟩ | short := Dialogue.run_write_cases atPort
  swap
  · exact Or.inr (early_of_failed early_connected short)
  obtain ⟨index, _, rfl, atNumber⟩ | short := Dialogue.run_read_cases atIndex
  swap
  · exact Or.inr (early_of_failed early_connected short)
  obtain ⟨number, input, rfl, atNodes⟩ | short := Dialogue.run_read_cases atNumber
  swap
  · exact Or.inr (early_of_failed early_connected short)
  obtain early | ⟨positive, small, delivered⟩ := receiveNodes_failed atNodes
  · exact Or.inr ⟨_, early_connected, early⟩
  · rw [ByteOrder.length_bytes] at request port
    rw [ByteOrder.length_bytes] at port
    generalize received : receivedInt o (decide (mark ≠ endianMark o)) number.bytes = count
      at positive small delivered
    refine Or.inl ⟨_, _, mark, index, number, count.toNat,
      ⟨input.take (count.toNat * sizeofNodeIdentifierKey), List.length_take_of_le delivered⟩,
      input.drop (count.toNat * sizeofNodeIdentifierKey), ?_, ?_, rfl, ?_, ?_, small, rfl⟩
    · exact congrArg _ (congrArg _ (congrArg _ (List.take_append_drop _ _).symm))
    · change 8 ≤ capacity
      omega
    · rw [received, Int.toNat_of_nonneg (Int.le_trans Int.one_nonneg positive)]
    · exact Int.toNat_le_toNat positive

/-- An attempt that fails although it has received a complete listing, fails with the keys
of the listing in its table. -/
theorem failed_of_delivers (nonneg : 0 ≤ descriptor) (noLeader : members.leaderNode = none)
    {keys : List NodeIdentifierKey} (delivers : Delivers o link leaderIndex keys)
    (failed : (tryFindClusterThredSafe o malloc own seed extraData descriptor true
      (start members)).run link = some (.failed after, rest)) :
    after = (addKeys seed leaderIndex 0 keys
      (connected members descriptor)).clearAllNodes.closeSocket := by
  obtain ⟨_, capacity⟩ := link
  obtain ⟨mark, index, number, count, nodesInfo, unread, rfl, room, rfl, counted, positive, small,
    rfl⟩ := delivers
  have clean : { connected members descriptor with
      members := { (connected members descriptor).members with leaderNode := none } } =
        connected members descriptor := by
    rw [← noLeader]
    rfl
  have request : (o.bytes ConnectRequest.newNode.code).length ≤ capacity := by
    rw [ByteOrder.length_bytes]
    exact Nat.le_trans (by decide) room
  have port : (o.bytes (intWord own.port)).length ≤
      capacity - (o.bytes ConnectRequest.newNode.code).length := by
    rw [ByteOrder.length_bytes, ByteOrder.length_bytes]
    exact Nat.le_sub_of_add_le room
  rw [tryFindClusterThredSafe_connected nonneg, Dialogue.run_read, Dialogue.run_write request,
    Dialogue.run_write port, Dialogue.run_read, Dialogue.run_read, counted, receiveNodes,
    Dialogue.run_bind, run_receiveNodesInfo_whole positive small, Option.bind_some] at failed
  by_cases noMemory : malloc (keysSize count) = false
  · rw [if_pos noMemory] at failed
    cases failed
  · rw [if_neg noMemory] at failed
    simp only [clean, Int.toNat_natCast, addReceivedNodes_block] at failed
    exact (ends_sendExtraData o _ own extraData _).of_run failed after rfl

/-- A join that failed leaves no trace exactly if its descriptor is not zero, and no failure comes
after a complete listing that holds the seed's own key or a new key at the index of the leader: the
descriptor is then closed a second time with the tools of the seed, and the pointer to the leader
is left on a node that was deleted. -/
theorem failed_join_leaves_no_trace_iff (empty : members.table.nodes = [])
    (noThis : members.thisNode = none) (noLeader : members.leaderNode = none)
    (failed : (tryFindClusterThredSafe o malloc own seed extraData descriptor connects
      (start members)).run link = some (.failed after, rest)) :
    after.NoTrace descriptor ↔
      descriptor ≠ 0 ∧ (0 < descriptor → connects = true →
        ∀ leaderIndex keys, Delivers o link leaderIndex keys →
          seed ∉ keys ∧
            ∀ key, keyAt leaderIndex 0 keys = some key → key ∈ keys.take leaderIndex.toNat) := by
  by_cases unconnected : descriptor < 0 ∨ connects = false
  · obtain ⟨s, early, attempt⟩ := tryFindClusterThredSafe_unconnected unconnected
    rw [attempt] at failed
    obtain ⟨s', early', rfl⟩ := early_of_failed early failed
    rw [early'.noTrace_iff empty noThis noLeader]
    refine (and_iff_left fun positive connected => ?_).symm
    rcases unconnected with negative | refused
    · omega
    · rw [connected] at refused
      cases refused
  · obtain ⟨opened, connected⟩ := not_or.mp unconnected
    rw [Bool.not_eq_false] at connected
    subst connected
    have nonneg := Int.not_lt.mp opened
    by_cases listed : ∃ leaderIndex keys, Delivers o link leaderIndex keys
    · have late {leaderIndex : Int} {keys : List NodeIdentifierKey}
          (delivers : Delivers o link leaderIndex keys) : after.NoTrace descriptor ↔
            descriptor ≠ 0 ∧ seed ∉ keys ∧ ∀ key, keyAt leaderIndex 0 keys = some key →
              key ∈ keys.take leaderIndex.toNat := by
        rw [failed_of_delivers nonneg noLeader delivers failed]
        exact noTrace_addKeys_iff nonneg empty noThis noLeader keys
      constructor
      · intro trace
        obtain ⟨leaderIndex, keys, delivers⟩ := listed
        refine ⟨((late delivers).mp trace).1, fun _ _ leaderIndex keys delivers => ?_⟩
        exact ((late delivers).mp trace).2
      · rintro ⟨nonzero, condition⟩
        obtain ⟨leaderIndex, keys, delivers⟩ := listed
        exact (late delivers).mpr ⟨nonzero, condition (by omega) rfl _ _ delivers⟩
    · obtain ⟨s, early, rfl⟩ := (delivers_or_early nonneg failed).resolve_left listed
      rw [early.noTrace_iff empty noThis noLeader]
      refine (and_iff_left fun _ _ leaderIndex keys delivers => ?_).symm
      exact absurd ⟨leaderIndex, keys, delivers⟩ listed

end Run

/-- A seed that closes the connection after the byte order mark. -/
theorem failed_join_leaves_no_trace_mark : ∃ after rest,
    (tryFindClusterThredSafe .little (fun _ => true) .zero .zero [] 3 true (start unjoined)).run
        ⟨[1, 0], 8⟩ = some (.failed after, rest) ∧ after.NoTrace 3 := by
  obtain ⟨after, rest, failed⟩ : ∃ after rest,
      (tryFindClusterThredSafe .little (fun _ => true) .zero .zero [] 3 true (start unjoined)).run
        ⟨[1, 0], 8⟩ = some (.failed after, rest) := ⟨_, _, rfl⟩
  refine ⟨after, rest, failed,
    (failed_join_leaves_no_trace_iff rfl rfl rfl failed).mpr ⟨by decide, ?_⟩⟩
  rintro _ _ _ _ ⟨mark, index, number, count, nodesInfo, unread, input, _⟩
  have long := congrArg List.length input
  simp only [List.length_append, mark.sized, index.sized, List.length_cons, List.length_nil] at long
  omega

/-- The listing holds the key of the seed, at the index of the leader, and the connection takes
nothing more: the descriptor 3 is closed twice, and the deleted node stays the leader. -/
theorem failed_join_leaves_leader : ∃ after rest,
    (tryFindClusterThredSafe .little (fun _ => true) .zero .zero [] 3 true (start unjoined)).run
        ⟨[1, 0, 0, 0, 0, 0, 1, 0, 0, 0] ++ List.replicate 28 0, 8⟩ = some (.failed after, rest) ∧
      after.members.table.nodes = [] ∧
      after.members.leaderNode = some .zero ∧ after.closed = [3, 3] ∧ ¬after.NoTrace 3 :=
  ⟨_, _, rfl, rfl, rfl, rfl, fun trace => nomatch trace.leaderNode⟩

end Attempt

end Tcp

end CppRaft
