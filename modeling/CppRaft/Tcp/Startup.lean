import CppRaft.Tcp.FailedJoin
import CppRaft.Tcp.Seeds
import CppRaft.Tcp.Server

/-!
# The way into a cluster

`CheckAllPossibleSeeds` as a whole: it goes through the configured seeds, passes over the server
itself, and tries to join through each of the others until one attempt succeeds. An attempt that
fails may leave the pointer to the leader on a node that was deleted and the records of such nodes,
so that the next one does not start from a new server. It ends as if it did: what the server
starts with is what the first seed that accepts it has sent, and a server that no seed accepts
leads a cluster of its own.
-/

namespace CppRaft

namespace Tcp

open Machine

/-- The same nodes with the same records and the same pointers. What a deleted node has left
behind may differ. -/
structure Members.Alike (s s' : Members) : Prop where
  nodes : s.table.nodes = s'.table.nodes
  record : ∀ node ∈ s.table.nodes, s.table.record node = s'.table.record node
  leaderNode : s.leaderNode = s'.leaderNode
  thisNode : s.thisNode = s'.thisNode

/-- The server has no nodes. The pointer to the leader may be left from an attempt that failed. -/
structure Members.Blank (s : Members) : Prop where
  nodes : s.table.nodes = []
  thisNode : s.thisNode = none

section Same

variable {s s' : Members}

/-- `AddNode` on the same nodes. -/
theorem Members.Alike.addNode? (same : s.Alike s') (key : NodeIdentifierKey) :
    Option.Rel (fun table table' =>
        table.nodes = table'.nodes ∧ ∀ node ∈ table.nodes, table.record node = table'.record node)
      (s.table.addNode? key) (s'.table.addNode? key) := by
  unfold NodeTable.addNode?
  by_cases listed : key ∈ s.table.nodes
  · rw [dif_neg (not_not_intro listed), dif_neg (not_not_intro (same.nodes ▸ listed))]
    exact .none
  · rw [dif_pos listed, dif_pos (same.nodes ▸ listed)]
    refine .some ⟨congrArg (· ++ [key]) same.nodes, fun node member => ?_⟩
    by_cases new : node = key
    · subst new
      simp only [Function.update_self]
    · simp only [Function.update_of_ne new]
      refine same.record node ?_
      simpa only [List.mem_append, List.mem_singleton, new, or_false] using member

/-- `makeLeader` keeps records that agree in agreement. -/
theorem record_makeLeader {table table' : NodeTable NodeIdentifierKey} (key : NodeIdentifierKey)
    (record : ∀ node ∈ table.nodes, table.record node = table'.record node) :
    ∀ node ∈ (table.makeLeader key).nodes,
      (table.makeLeader key).record node = (table'.makeLeader key).record node := by
  intro node member
  have before := record node member
  simp only [NodeTable.makeLeader, NodeTable.update]
  by_cases leader : node = key
  · subst leader
    simp only [Function.update_self, before]
  · simp only [Function.update_of_ne leader, before]

/-- A listing makes members that are alike into members that are alike. -/
theorem Members.Alike.addReceived (same : s.Alike s') (leaderIndex : Int) (i : ℕ)
    (keys : List NodeIdentifierKey) :
    (addReceived leaderIndex i keys s).Alike (addReceived leaderIndex i keys s') := by
  induction keys generalizing i s s' with
  | nil => exact same
  | cons key keys ih =>
      rw [Tcp.addReceived, Tcp.addReceived]
      refine ih ?_ (i + 1)
      have pass := same.addNode? key
      generalize s.table.addNode? key = table, s'.table.addNode? key = table' at pass ⊢
      cases pass with
      | none => exact same
      | some added =>
          obtain ⟨nodes, record⟩ := added
          simp only
          split
          · exact ⟨nodes, record_makeLeader key record, rfl, same.thisNode⟩
          · exact ⟨nodes, record, same.leaderNode, same.thisNode⟩

/-- So does `AddOwnNode`. -/
theorem Members.Alike.addOwnNode (same : s.Alike s') (isLeader : Bool) (own : NodeIdentifierKey) :
    (addOwnNode isLeader own s).Alike (addOwnNode isLeader own s') := by
  unfold Tcp.addOwnNode
  rw [← same.thisNode]
  cases s.thisNode with
  | some this => exact same
  | none =>
      simp only
      have adds := same.addNode? own
      generalize s.table.addNode? own = table, s'.table.addNode? own = table' at adds ⊢
      cases adds with
      | none => exact same
      | some added =>
          obtain ⟨nodes, record⟩ := added
          simp only
          split
          · exact ⟨nodes, record_makeLeader own record, rfl, rfl⟩
          · exact ⟨nodes, record, same.leaderNode, rfl⟩

/-- Without its leader a server that has no nodes is a new one. -/
theorem Members.Blank.same (blank : s.Blank) (blank' : s'.Blank) :
    Members.Alike { s with leaderNode := none } { s' with leaderNode := none } := by
  refine ⟨blank.nodes.trans blank'.nodes.symm, fun node member => ?_, rfl,
    blank.thisNode.trans blank'.thisNode.symm⟩
  rw [show s.table.nodes = [] from blank.nodes] at member
  cases member

/-- A constructed server has no nodes. -/
theorem blank_unjoined : unjoined.Blank :=
  ⟨rfl, rfl⟩

/-- Leading a cluster of its own does not depend on what attempts that failed have left. -/
theorem Members.Blank.addOwnNode (blank : s.Blank) (own : NodeIdentifierKey) :
    (addOwnNode true own s).Alike (addOwnNode true own unjoined) := by
  have own_leads {s : Members} (blank : s.Blank) :
      Tcp.addOwnNode true own s = Tcp.addOwnNode true own { s with leaderNode := none } := by
    have fresh : own ∉ s.table.nodes := by
      rw [blank.nodes]
      exact List.not_mem_nil
    simp only [Tcp.addOwnNode, blank.thisNode, NodeTable.addNode?, dif_pos fresh, if_true]
  rw [own_leads blank, own_leads blank_unjoined]
  exact (blank.same blank_unjoined).addOwnNode true own

end Same

/-- Two attempts end in the same way, and with the same members if they have joined. -/
inductive Tried.Like : Tried → Tried → Prop where
  | joined {s s' : Attempt} (same : s.members.Alike s'.members) (extraData : List UInt8) :
      Like (.joined s extraData) (.joined s' extraData)
  | failed {s s' : Attempt} (blank : s.members.Blank) (blank' : s'.members.Blank) :
      Like (.failed s) (.failed s')
  | exited : Like .exited .exited

namespace Attempt

variable {o : ByteOrder} {malloc : Int → Bool} {own seed : NodeIdentifierKey}
  {extraData : List UInt8} {leaderIndex : Int} {s s' : Attempt}

/-- Failures are alike whatever the members were: `ClearAllNodes` frees them. -/
theorem like_fail (noThis : s.members.thisNode = none) (noThis' : s'.members.thisNode = none) :
    s.fail.Like s'.fail :=
  .failed ⟨rfl, noThis⟩ ⟨rfl, noThis'⟩

/-- The loops over the array do the same to the same members, and stop at the same place if
the array is too short. -/
theorem same_addReceivedNodes (same : s.members.Alike s'.members) (isEndianDiffer : Bool)
    (left i : ℕ) (nodesInfo : List UInt8) :
    Option.Rel (fun s s' => s.members.Alike s'.members)
      (addReceivedNodes o isEndianDiffer seed leaderIndex left i nodesInfo s)
      (addReceivedNodes o isEndianDiffer seed leaderIndex left i nodesInfo s') := by
  induction left generalizing i nodesInfo s s' with
  | zero => exact .some same
  | succ left ih =>
      rw [addReceivedNodes, addReceivedNodes]
      split
      · simp only [addReceivedNode_eq, Option.bind_eq_bind, Option.bind_some]
        refine ih ?_ (i + 1) _
        -- A pass is the loop over one key.
        have pass := same.addReceived leaderIndex i
          [.received o isEndianDiffer ⟨nodesInfo.take sizeofNodeIdentifierKey,
            List.length_take_of_le ‹_›⟩]
        rwa [@members_pass seed, @members_pass seed] at pass
      · exact .none

/-- Reading a listing does not set the own node. -/
theorem thisNode_addReceivedNodes {isEndianDiffer : Bool} {left i : ℕ} {nodesInfo : List UInt8}
    (added : addReceivedNodes o isEndianDiffer seed leaderIndex left i nodesInfo s = some s') :
    s'.members.thisNode = s.members.thisNode := by
  induction left generalizing i nodesInfo s with
  | zero =>
      cases added
      rfl
  | succ left ih =>
      rw [addReceivedNodes] at added
      split at added
      · simp only [addReceivedNode_eq, Option.bind_eq_bind, Option.bind_some] at added
        rw [ih added, ← thisNode_addReceived leaderIndex i [_] s.members, @members_pass seed]
        rfl
      · cases added

/-- The end of an attempt does not depend on what an earlier one has left behind. -/
theorem alike_confirmJoin (same : s.members.Alike s'.members)
    (noThis : s.members.thisNode = none) (isEndianDiffer : Bool) :
    (confirmJoin o isEndianDiffer own s).Alike Tried.Like
      (confirmJoin o isEndianDiffer own s') := by
  have fails : s.fail.Like s'.fail := like_fail noThis (same.thisNode.symm.trans noThis)
  refine .read (fun request => ?_) (.done fails)
  split
  · exact .done .exited
  · split
    · refine (Dialogue.Alike.refl (R := Eq) (fun _ => rfl) _).bind ?_
      rintro received _ rfl
      cases received with
      | none => exact .done fails
      | some data => exact .done (.joined (same.addOwnNode false own) data)
    · exact .done fails

/-- Neither does the part that sends the extra data. -/
theorem alike_sendExtraData (same : s.members.Alike s'.members)
    (noThis : s.members.thisNode = none) (isEndianDiffer : Bool) :
    (sendExtraData o isEndianDiffer own extraData s).Alike Tried.Like
      (sendExtraData o isEndianDiffer own extraData s') := by
  have fails : s.fail.Like s'.fail := like_fail noThis (same.thisNode.symm.trans noThis)
  refine .write (.write ?_ (.done fails)) (.done fails)
  split
  · exact .done fails
  · exact alike_confirmJoin same noThis isEndianDiffer

/-- Nor does the part that reads the listing: it only looks at the nodes that it adds
itself. -/
theorem alike_receiveNodes (blank : s.members.Blank) (blank' : s'.members.Blank)
    (isEndianDiffer : Bool) (numberOfNodes : Int) :
    (receiveNodes o isEndianDiffer malloc own seed extraData leaderIndex numberOfNodes s).Alike
      Tried.Like
      (receiveNodes o isEndianDiffer malloc own seed extraData leaderIndex numberOfNodes s') := by
  refine (Dialogue.Alike.refl (R := Eq) (fun _ => rfl) _).bind ?_
  rintro info _ rfl
  cases info with
  | abandoned => exact .done (like_fail blank.thisNode blank'.thisNode)
  | exited => exact .done .exited
  | received nodesInfo =>
      simp only
      have added := @same_addReceivedNodes o seed leaderIndex
        { s with members := { s.members with leaderNode := none } }
        { s' with members := { s'.members with leaderNode := none } }
        (blank.same blank') isEndianDiffer numberOfNodes.toNat 0 nodesInfo
      generalize atNone : addReceivedNodes o isEndianDiffer seed leaderIndex numberOfNodes.toNat 0
        nodesInfo { s with members := { s.members with leaderNode := none } } = after at added ⊢
      generalize addReceivedNodes o isEndianDiffer seed leaderIndex numberOfNodes.toNat 0
        nodesInfo { s' with members := { s'.members with leaderNode := none } } = after' at added ⊢
      cases added with
      | none => exact .undefined
      | some same =>
          exact alike_sendExtraData same ((thisNode_addReceivedNodes atNone).trans blank.thisNode)
            isEndianDiffer

/-- An attempt reads, writes and ends as that of a new server. A leader pointer that a
failed attempt has left behind is overwritten or cleared, but never read. -/
theorem alike_tryFindClusterThredSafe {members members' : Members} (blank : members.Blank)
    (blank' : members'.Blank) (descriptor : Int) (connects : Bool) :
    (tryFindClusterThredSafe o malloc own seed extraData descriptor connects
      (start members)).Alike Tried.Like
      (tryFindClusterThredSafe o malloc own seed extraData descriptor connects
        (start members')) := by
  by_cases unconnected : descriptor < 0 ∨ connects = false
  · obtain ⟨s, early, attempt⟩ := @tryFindClusterThredSafe_unconnected seed o malloc own extraData
      members descriptor connects unconnected
    obtain ⟨s', early', attempt'⟩ := @tryFindClusterThredSafe_unconnected seed o malloc own
      extraData members' descriptor connects unconnected
    rw [attempt, attempt']
    exact .done (like_fail (early.members ▸ blank.thisNode) (early'.members ▸ blank'.thisNode))
  · obtain ⟨opened, connected⟩ := not_or.mp unconnected
    rw [Bool.not_eq_false] at connected
    subst connected
    have nonneg := Int.not_lt.mp opened
    rw [tryFindClusterThredSafe_connected nonneg, tryFindClusterThredSafe_connected nonneg]
    have fails := Dialogue.Alike.done (@like_fail (.connected members descriptor)
      (.connected members' descriptor) blank.thisNode blank'.thisNode)
    have closes := Dialogue.Alike.done
      (@like_fail (Attempt.connected members descriptor).closeSocket
        (Attempt.connected members' descriptor).closeSocket blank.thisNode blank'.thisNode)
    refine .read (fun remEndian => .write (.write (.read (fun index => .read (fun number => ?_)
      fails) fails) fails) closes) closes
    exact alike_receiveNodes blank blank' _ _

/-- From the keys on, an attempt that joins has added the own node to those it has received,
whatever else it read. -/
theorem ends_joined (isEndianDiffer : Bool) (s : Attempt) :
    (sendExtraData o isEndianDiffer own extraData s).Ends fun tried =>
      ∀ after data, tried = .joined after data →
        after.members = addOwnNode false own s.members := by
  have confirms : (confirmJoin o isEndianDiffer own s).Ends fun tried =>
      ∀ after data, tried = .joined after data →
        after.members = addOwnNode false own s.members := by
    refine ⟨fun request => ?_, fun _ _ absurdity => nomatch absurdity⟩
    beta_reduce
    split
    · exact fun _ _ absurdity => nomatch absurdity
    · split
      · refine (Dialogue.ends_true _).bind fun received _ => ?_
        cases received with
        | none => exact fun _ _ absurdity => nomatch absurdity
        | some data =>
            rintro _ _ ⟨⟩
            rfl
      · exact fun _ _ absurdity => nomatch absurdity
  refine ⟨⟨?_, fun _ _ absurdity => nomatch absurdity⟩, fun _ _ absurdity => nomatch absurdity⟩
  split
  · exact fun _ _ absurdity => nomatch absurdity
  · exact confirms

section Joined

variable {members : Members} {descriptor : Int} {connects : Bool} {link rest : Link}
  {after : Attempt} {data : List UInt8}

private theorem size_of_whole {count size : Int} (cut : size = 28 * count % 2 ^ 32)
    (positive : 1 ≤ count) (whole : count.toNat * sizeofNodeIdentifierKey ≤ size.toNat) :
    size.toNat = count.toNat * sizeofNodeIdentifierKey := by
  have most : size ≤ 28 * count := by
    have parts := Int.emod_add_mul_ediv (28 * count) (2 ^ 32)
    have nonneg : 0 ≤ 28 * count / 2 ^ 32 := Int.ediv_nonneg (by omega) (by decide)
    rw [← cut] at parts
    linarith
  clear cut
  rw [sizeofNodeIdentifierKey] at whole ⊢
  omega

/-- An attempt that joins has received all the nodes that were announced: the loops over an
array whose size was cut would have left it. -/
theorem receiveNodes_joined {isEndianDiffer : Bool} {count : Int} {s : Attempt}
    (joined : (receiveNodes o isEndianDiffer malloc own seed extraData leaderIndex count s).run
      link = some (.joined after data, rest)) :
    ∃ nodesInfo : Block (count.toNat * sizeofNodeIdentifierKey),
      1 ≤ count ∧ count.toNat * sizeofNodeIdentifierKey < 2 ^ 31 ∧
      (∃ unread, link.input = nodesInfo.bytes ++ unread) ∧
      after.members = addOwnNode false own
        (addReceived leaderIndex 0 (receivedKeys o isEndianDiffer count.toNat nodesInfo)
          { s.members with leaderNode := none }) := by
  rw [receiveNodes, Dialogue.run_bind] at joined
  obtain ⟨⟨info, left⟩, received, joined⟩ := Option.bind_eq_some_iff.mp joined
  cases info with
  | abandoned => cases joined
  | exited => cases joined
  | received nodesInfo =>
      obtain ⟨positive, _, nonneg, delivered, rfl, _⟩ := received_of_run received
      obtain ⟨small, size⟩ := keysSize_of_nonneg nonneg
      simp only at joined
      split at joined
      · cases joined
      · rename_i s' added
        have whole := (addReceivedNodes_isSome_iff o isEndianDiffer seed leaderIndex count.toNat 0
          _ _).mp (Option.isSome_of_eq_some added)
        rw [List.length_take_of_le delivered] at whole
        have all := size_of_whole size positive whole
        have inside : count.toNat * sizeofNodeIdentifierKey ≤ link.input.length := all ▸ delivered
        rw [all, addReceivedNodes_block o isEndianDiffer ⟨_, List.length_take_of_le inside⟩,
          Option.some.injEq] at added
        subst added
        have members := (ends_joined isEndianDiffer _).of_run joined after data rfl
        rw [members_addKeys] at members
        refine ⟨⟨_, List.length_take_of_le inside⟩, positive, ?_,
          ⟨_, (List.take_append_drop _ _).symm⟩, members⟩
        rw [← all, size]
        exact Int.toNat_lt' (by decide) |>.mpr small

/-- An attempt that joins was connected and has received a complete listing, and it takes over
its keys and its leader. -/
theorem delivers_of_joined
    (joined : (tryFindClusterThredSafe o malloc own seed extraData descriptor connects
      (start members)).run link = some (.joined after data, rest)) :
    ∃ leaderIndex keys, Delivers o link leaderIndex keys ∧
      after.members = addOwnNode false own
        (addReceived leaderIndex 0 keys { members with leaderNode := none }) := by
  obtain ⟨_, capacity⟩ := link
  by_cases unconnected : descriptor < 0 ∨ connects = false
  · obtain ⟨s, _, attempt⟩ := @tryFindClusterThredSafe_unconnected seed o malloc own extraData
      members descriptor connects unconnected
    rw [attempt] at joined
    cases joined
  obtain ⟨opened, connected⟩ := not_or.mp unconnected
  rw [Bool.not_eq_false] at connected
  subst connected
  rw [tryFindClusterThredSafe_connected (Int.not_lt.mp opened)] at joined
  obtain ⟨mark, _, rfl, atRequest⟩ | short := Dialogue.run_read_cases joined
  swap
  · cases short
  obtain ⟨request, atPort⟩ | short := Dialogue.run_write_cases atRequest
  swap
  · cases short
  obtain ⟨port, atIndex⟩ | short := Dialogue.run_write_cases atPort
  swap
  · cases short
  obtain ⟨index, _, rfl, atNumber⟩ | short := Dialogue.run_read_cases atIndex
  swap
  · cases short
  obtain ⟨number, input, rfl, atNodes⟩ | short := Dialogue.run_read_cases atNumber
  swap
  · cases short
  obtain ⟨nodesInfo, positive, small, ⟨unread, rfl⟩, members⟩ := receiveNodes_joined atNodes
  rw [ByteOrder.length_bytes] at request port
  rw [ByteOrder.length_bytes] at port
  refine ⟨_, _, ⟨mark, index, number, _, nodesInfo, unread, rfl, ?_, rfl, ?_, ?_, small, rfl⟩,
    members⟩
  · change 8 ≤ capacity
    omega
  · exact (Int.toNat_of_nonneg (Int.le_trans Int.one_nonneg positive)).symm
  · exact Int.toNat_le_toNat positive

/-- A connection delivers one listing. -/
theorem Delivers.unique {leaderIndex' : Int} {keys keys' : List NodeIdentifierKey}
    (delivers : Delivers o link leaderIndex keys) (delivers' : Delivers o link leaderIndex' keys') :
    leaderIndex = leaderIndex' ∧ keys = keys' := by
  obtain ⟨mark, index, number, count, nodesInfo, unread, input, _, rfl, counted, _, _, rfl⟩ :=
    delivers
  obtain ⟨mark', index', number', count', nodesInfo', unread', input', _, rfl, counted', _, _,
    rfl⟩ := delivers'
  rw [input] at input'
  obtain ⟨marks, atIndex⟩ := List.append_inj input' (mark.sized.trans mark'.sized.symm)
  obtain ⟨indices, atNumber⟩ := List.append_inj atIndex (index.sized.trans index'.sized.symm)
  obtain ⟨numbers, atNodes⟩ := List.append_inj atNumber (number.sized.trans number'.sized.symm)
  obtain rfl := Block.ext marks
  obtain rfl := Block.ext indices
  obtain rfl := Block.ext numbers
  obtain rfl : count = count' := Int.ofNat_inj.mp (counted.symm.trans counted')
  obtain ⟨infos, _⟩ := List.append_inj atNodes (nodesInfo.sized.trans nodesInfo'.sized.symm)
  obtain rfl := Block.ext infos
  exact ⟨rfl, rfl⟩

end Joined

end Attempt

/-- What an attempt meets: what `malloc`, `socket` and `connect` return, what the string for the
adder holds when it begins, and the connection. An attempt that fails may have changed the
string. -/
structure Trial where
  malloc : Int → Bool
  descriptor : Int
  connects : Bool
  extraData : List UInt8
  link : Link

/-- `TryFindClusterThredSafe` under the conditions that it meets. -/
def Trial.tried (o : ByteOrder) (own seed : NodeIdentifierKey) (trial : Trial) (s : Members) :
    Option Tried :=
  ((Attempt.tryFindClusterThredSafe o trial.malloc own seed trial.extraData trial.descriptor
    trial.connects (.start s)).run trial.link).map Prod.fst

/-- An attempt of a server that has no nodes ends as that of a new server. -/
theorem Trial.like_tried {o : ByteOrder} (trial : Trial) (key seed : NodeIdentifierKey)
    {members : Members} (blank : members.Blank) :
    Option.Rel Tried.Like (trial.tried o key seed members) (trial.tried o key seed unjoined) := by
  have ends := (@Attempt.alike_tryFindClusterThredSafe o trial.malloc key seed trial.extraData
    _ _ blank blank_unjoined trial.descriptor trial.connects).run trial.link
  unfold Trial.tried
  generalize (Attempt.tryFindClusterThredSafe o trial.malloc key seed trial.extraData
    trial.descriptor trial.connects (.start members)).run trial.link = ended at ends ⊢
  generalize (Attempt.tryFindClusterThredSafe o trial.malloc key seed trial.extraData
    trial.descriptor trial.connects (.start unjoined)).run trial.link = ended' at ends ⊢
  cases ends with
  | none => exact .none
  | some alike => exact .some alike.1

/-- An attempt of a server without nodes ends as it would on a new server, which is what the
search as a whole relies on: a failed attempt may leave the leader pointer behind. -/
theorem Trial.exists_tried {o : ByteOrder} {trial : Trial} {key seed : NodeIdentifierKey}
    {members : Members} (blank : members.Blank) {fresh : Tried}
    (ended : trial.tried o key seed unjoined = some fresh) :
    ∃ tried, trial.tried o key seed members = some tried ∧ tried.Like fresh := by
  have like := trial.like_tried (o := o) key seed blank
  rw [ended] at like
  generalize trial.tried o key seed members = tried at like ⊢
  cases like with
  | some like => exact ⟨_, rfl, like⟩

/-- An attempt that joins has read a listing, and its members are those of the listing with
the own node. -/
theorem Trial.members_of_joined {o : ByteOrder} {trial : Trial} {key seed : NodeIdentifierKey}
    {after : Attempt} {data : List UInt8}
    (joins : trial.tried o key seed unjoined = some (.joined after data)) :
    ∃ leaderIndex keys, Attempt.Delivers o trial.link leaderIndex keys ∧
      after.members = (Found.cluster keys leaderIndex).members key := by
  obtain ⟨⟨_, rest⟩, joined, rfl⟩ := Option.map_eq_some_iff.mp joins
  exact Attempt.delivers_of_joined joined

/-- The state of `CheckAllPossibleSeeds`: the members, `m_allPossibleNodes`, and whether
`pNodesFromLeader` is set. -/
structure Startup where
  members : Members
  allPossibleNodes : List NodeIdentifierKey
  found : Bool

/-- How a part of `CheckAllPossibleSeeds` ends: the process leaves, or it goes on. -/
inductive Started (α : Type) where
  | exited
  | next (s : α)

/-- What a server starts with. -/
structure Beginning where
  members : Members
  allPossibleNodes : List NodeIdentifierKey
  state : RaftState

namespace Host

variable (host : Host)

/-- The seed is the server itself, as the loop of `CheckAllPossibleSeeds` finds it: it goes on with
the next one. -/
def continues (ownPort : Int) (seed : NodeIdentifierKey) : Bool :=
  if host.ownText = seed.ip4Address.text ∧ ownPort = seed.port then true
  else
    match host.resolver.resolve seed.ip4Address.text with
    | some address =>
        if inetNtoa address = inetNtoa loopback then ownPort = seed.port
        else if host.ownText = inetNtoa address then ownPort = seed.port
        else false
    | none => false

section Start

variable (o : ByteOrder) {ownPort : Int} (fits : IsInt ownPort)

/-- One pass of the loop. -/
def startPass (seed : NodeIdentifierKey) (trial : Trial) (s : Startup) :
    Option (Started Startup) := do
  let nodes ← host.checkSeed ownPort seed
  let s := { s with allPossibleNodes := s.allPossibleNodes ++ nodes }
  if host.continues ownPort seed then some (.next s)
  else if s.found then some (.next s)
  else
    match trial.tried o (host.ownKey ownPort fits) seed s.members with
    | none => none
    | some .exited => some .exited
    | some (.failed after) => some (.next { s with members := after.members })
    | some (.joined after _) => some (.next { s with members := after.members, found := true })

/-- The loop over the seeds. -/
def startLoop : List (NodeIdentifierKey × Trial) → Startup → Option (Started Startup)
  | [], s => some (.next s)
  | (seed, trial) :: seeds, s =>
      match host.startPass o fits seed trial s with
      | some (.next s) => startLoop seeds s
      | ended => ended

/-- `CheckAllPossibleSeeds` after the loop. -/
def begin (s : Startup) : Beginning :=
  if s.found then
    ⟨s.members, s.allPossibleNodes,
      if s.members.leaderNode.isSome then .follower else .candidate⟩
  else
    ⟨addOwnNode true (host.ownKey ownPort fits) s.members, s.allPossibleNodes, .leader⟩

/-- `CheckAllPossibleSeeds` of a constructed server, with what each attempt would meet. -/
def start (seeds : List (NodeIdentifierKey × Trial)) : Option (Started Beginning) :=
  match host.startLoop o fits seeds ⟨unjoined, [], false⟩ with
  | none => none
  | some .exited => some .exited
  | some (.next s) => some (.next (host.begin fits s))

/-- What the seeds offer a new server: the listing of the first one that accepts it, if all the
attempts before fail. -/
inductive Finds : List (NodeIdentifierKey × Trial) → Found → Prop where
  | nothing : Finds [] .nothing
  | itself {seed : NodeIdentifierKey} {trial : Trial} {seeds : List (NodeIdentifierKey × Trial)}
      {found : Found} (own : host.IsOwn ownPort seed) (rest : Finds seeds found) :
      Finds ((seed, trial) :: seeds) found
  | failed {seed : NodeIdentifierKey} {trial : Trial} {seeds : List (NodeIdentifierKey × Trial)}
      {found : Found} {after : Attempt} (other : ¬host.IsOwn ownPort seed)
      (fails : trial.tried o (host.ownKey ownPort fits) seed unjoined = some (.failed after))
      (rest : Finds seeds found) : Finds ((seed, trial) :: seeds) found
  | joined {seed : NodeIdentifierKey} {trial : Trial} (seeds : List (NodeIdentifierKey × Trial))
      {after : Attempt} {data : List UInt8} {leaderIndex : Int} {keys : List NodeIdentifierKey}
      (other : ¬host.IsOwn ownPort seed)
      (joins : trial.tried o (host.ownKey ownPort fits) seed unjoined = some (.joined after data))
      (delivers : Attempt.Delivers o trial.link leaderIndex keys) :
      Finds ((seed, trial) :: seeds) (.cluster keys leaderIndex)

/-- What a pass of a search does, from a server that has no nodes. -/
inductive Passes (seed : NodeIdentifierKey) (trial : Trial) (s : Startup) : Startup → Prop where
  | itself (own : host.IsOwn ownPort seed) (nodes : List NodeIdentifierKey) :
      Passes seed trial s ⟨s.members, nodes, false⟩
  | failed {after after' : Attempt} (other : ¬host.IsOwn ownPort seed)
      (fails : trial.tried o (host.ownKey ownPort fits) seed unjoined = some (.failed after'))
      (blank : after.members.Blank) (nodes : List NodeIdentifierKey) :
      Passes seed trial s ⟨after.members, nodes, false⟩
  | joined {after after' : Attempt} {data : List UInt8} {leaderIndex : Int}
      {keys : List NodeIdentifierKey} (other : ¬host.IsOwn ownPort seed)
      (joins : trial.tried o (host.ownKey ownPort fits) seed unjoined = some (.joined after' data))
      (delivers : Attempt.Delivers o trial.link leaderIndex keys)
      (same : after.members.Alike
        ((Found.cluster keys leaderIndex).members (host.ownKey ownPort fits)))
      (nodes : List NodeIdentifierKey) :
      Passes seed trial s ⟨after.members, nodes, true⟩

/-- A server starts with what was found, and remembers the seeds. -/
structure BeginsWith (ownPort : Int) (fits : IsInt ownPort)
    (seeds : List (NodeIdentifierKey × Trial)) (found : Found) (s : Beginning) : Prop where
  members : s.members.Alike (found.members (host.ownKey ownPort fits))
  state : s.state = found.state (host.ownKey ownPort fits)
  allPossibleNodes : host.checkAllPossibleSeeds ownPort (seeds.map Prod.fst) =
    some s.allPossibleNodes

end Start

variable {host} {own : InAddr} {o : ByteOrder} {ownPort : Int} {fits : IsInt ownPort}
  {seeds : List (NodeIdentifierKey × Trial)} {s t : Startup}

/-- What follows the loop leaves the remembered seeds alone. -/
theorem allPossibleNodes_begin (fits : IsInt ownPort) (s : Startup) :
    (host.begin fits s).allPossibleNodes = s.allPossibleNodes := by
  rw [begin]
  split <;> rfl

/-- The seeds that the loop passes over are the server itself, however their address is
written. -/
theorem continues_iff (owns : host.ownText = inetNtoa own) (seed : NodeIdentifierKey) :
    host.continues ownPort seed = true ↔ host.IsOwn ownPort seed := by
  unfold continues IsOwn
  by_cases port : ownPort = seed.port
  · subst port
    simp only [and_true, decide_true]
    cases resolved : host.resolver.resolve seed.ip4Address.text with
    | none =>
        have named := ne_ownText_of_unresolved owns resolved
        simp only [addressOf, resolved, if_neg named.symm, named, Bool.false_eq_true]
    | some address =>
        rw [addressOf_eq_ownText_iff owns resolved]
        by_cases named : host.ownText = seed.ip4Address.text
        · rw [← named, owns, host.resolver.dotted, Option.some.injEq] at resolved
          exact iff_of_true (if_pos named) (Or.inl resolved.symm)
        · rw [if_neg named]
          simp only [owns, inetNtoa_injective.eq_iff]
          by_cases near : address = loopback
          · exact iff_of_true (if_pos near) (Or.inr near)
          · rw [if_neg near, or_iff_left near, Bool.if_false_right, Bool.and_true,
              decide_eq_true_iff, eq_comm]
  · simp only [port, Ne.symm port, and_false, if_false, decide_false, iff_false]
    cases host.resolver.resolve seed.ip4Address.text with
    | none => exact Bool.false_ne_true
    | some address => simp only [ite_self, Bool.false_eq_true, not_false_eq_true]

/-- The nodes of a seed come before those of the seeds behind it. -/
theorem checkAllPossibleSeeds_cons (seed : NodeIdentifierKey) (seeds : List NodeIdentifierKey) :
    host.checkAllPossibleSeeds ownPort (seed :: seeds) =
      (host.checkSeed ownPort seed).bind fun part =>
        (host.checkAllPossibleSeeds ownPort seeds).map (part ++ ·) := by
  have from_nodes (seeds nodes : List NodeIdentifierKey) :
      seeds.foldlM (fun nodes seed => (host.checkSeed ownPort seed).map (nodes ++ ·)) nodes =
        (host.checkAllPossibleSeeds ownPort seeds).map (nodes ++ ·) := by
    unfold checkAllPossibleSeeds
    induction seeds generalizing nodes with
    | nil => simp only [List.foldlM_nil, Option.pure_def, Option.map_some, List.append_nil]
    | cons seed seeds ih =>
        simp only [List.foldlM_cons, Option.bind_eq_bind]
        cases host.checkSeed ownPort seed with
        | none => rfl
        | some part =>
            simp only [Option.map_some, Option.bind_some, List.nil_append]
            rw [ih (nodes ++ part), ih part, Option.map_map]
            simp only [Function.comp_def, List.append_assoc]
  rw [checkAllPossibleSeeds, List.foldlM_cons, Option.bind_eq_bind]
  cases host.checkSeed ownPort seed with
  | none => rfl
  | some part => exact from_nodes seeds part

/-- For addresses with a terminator the loop over the seeds is defined: its texts end inside
their buffers. -/
theorem exists_checkAllPossibleSeeds (owns : host.ownText = inetNtoa own)
    {seeds : List NodeIdentifierKey} (terminated : ∀ seed ∈ seeds, seed.ip4Address.Terminated) :
    ∃ nodes, host.checkAllPossibleSeeds ownPort seeds = some nodes := by
  induction seeds with
  | nil => exact ⟨[], rfl⟩
  | cons seed seeds ih =>
      obtain ⟨first, others⟩ := List.forall_mem_cons.mp terminated
      obtain ⟨part, checked⟩ := exists_checkSeed owns first
      obtain ⟨nodes, collected⟩ := ih others
      rw [checkAllPossibleSeeds_cons, checked, collected]
      exact ⟨_, rfl⟩

/-- Behind the seed that accepts the server the loop only collects nodes. -/
theorem startLoop_of_found (found : s.found = true) (seeds : List (NodeIdentifierKey × Trial)) :
    host.startLoop o fits seeds s =
      (host.checkAllPossibleSeeds ownPort (seeds.map Prod.fst)).map fun nodes =>
        .next { s with allPossibleNodes := s.allPossibleNodes ++ nodes } := by
  induction seeds generalizing s with
  | nil =>
      simp only [startLoop, List.map_nil, checkAllPossibleSeeds, List.foldlM_nil, Option.pure_def,
        Option.map_some, List.append_nil]
  | cons first seeds ih =>
      obtain ⟨seed, trial⟩ := first
      rw [startLoop, List.map_cons, checkAllPossibleSeeds_cons, startPass]
      cases host.checkSeed ownPort seed with
      | none => rfl
      | some part =>
          simp only [Option.bind_eq_bind, Option.bind_some, if_pos found, ite_self, Option.map_map]
          rw [ih (s := { s with allPossibleNodes := s.allPossibleNodes ++ part }) found]
          simp only [Function.comp_def, List.append_assoc]

/-- A pass of a search does one of the things of `Passes`, and remembers its seed as the
loop of `CheckAllPossibleSeeds` does. -/
theorem passes_of_startPass (owns : host.ownText = inetNtoa own) {seed : NodeIdentifierKey}
    {trial : Trial} (blank : s.members.Blank) (searching : s.found = false)
    (passed : host.startPass o fits seed trial s = some (.next t)) :
    host.Passes o fits seed trial s t ∧ ∃ part, host.checkSeed ownPort seed = some part ∧
      t.allPossibleNodes = s.allPossibleNodes ++ part := by
  rw [startPass, Option.bind_eq_bind] at passed
  obtain ⟨part, checked, passed⟩ := Option.bind_eq_some_iff.mp passed
  simp only [searching, Bool.false_eq_true, if_false] at passed
  split at passed
  · rename_i itself
    cases passed
    exact ⟨.itself ((continues_iff owns seed).mp itself) _, part, checked, rfl⟩
  · rename_i other
    rw [continues_iff owns] at other
    have like := trial.like_tried (o := o) (host.ownKey ownPort fits) seed blank
    generalize trial.tried o (host.ownKey ownPort fits) seed s.members = tried at like passed
    generalize fresh : trial.tried o (host.ownKey ownPort fits) seed unjoined = tried' at like
    cases like with
    | none => cases passed
    | some like =>
        cases like with
        | exited => cases passed
        | failed blank _ =>
            cases passed
            exact ⟨.failed other fresh blank _, part, checked, rfl⟩
        | joined same data =>
            cases passed
            obtain ⟨leaderIndex, keys, delivers, members⟩ := Trial.members_of_joined fresh
            exact ⟨.joined other fresh delivers (members ▸ same) _, part, checked, rfl⟩

/-- A loop that ends has found what the seeds offer a new server, by induction on the seeds:
a failed attempt leaves a server without nodes, for which the next one goes as for a new
server. -/
theorem finds_of_startLoop (owns : host.ownText = inetNtoa own) (blank : s.members.Blank)
    (searching : s.found = false) (ended : host.startLoop o fits seeds s = some (.next t)) :
    ∃ found, host.Finds o fits seeds found ∧
      (host.begin fits t).members.Alike (found.members (host.ownKey ownPort fits)) ∧
      (host.begin fits t).state = found.state (host.ownKey ownPort fits) ∧
      ∃ nodes, host.checkAllPossibleSeeds ownPort (seeds.map Prod.fst) = some nodes ∧
        t.allPossibleNodes = s.allPossibleNodes ++ nodes := by
  induction seeds generalizing s with
  | nil =>
      cases ended
      refine ⟨.nothing, .nothing, ?_, ?_, [], rfl, (List.append_nil _).symm⟩
      · simp only [begin, searching, Bool.false_eq_true, if_false]
        exact blank.addOwnNode _
      · simp only [begin, searching, Bool.false_eq_true, if_false, Found.state]
  | cons first seeds ih =>
      obtain ⟨seed, trial⟩ := first
      rw [startLoop] at ended
      split at ended
      · rename_i s' passed
        obtain ⟨passes, part, checked, nodes⟩ := passes_of_startPass owns blank searching passed
        rw [List.map_cons, checkAllPossibleSeeds_cons, checked, Option.bind_some]
        -- What the rest of the loop collects comes behind the nodes of this seed.
        have behind {nodes' : List NodeIdentifierKey}
            (last : t.allPossibleNodes = s'.allPossibleNodes ++ nodes') :
            t.allPossibleNodes = s.allPossibleNodes ++ (part ++ nodes') := by
          rw [last, nodes, List.append_assoc]
        cases passes with
        | itself itself =>
            obtain ⟨found, finds, members, state, nodes', collected, last⟩ :=
              ih (s := ⟨_, _, false⟩) blank rfl ended
            exact ⟨found, .itself itself finds, members, state, part ++ nodes',
              by rw [collected, Option.map_some], behind last⟩
        | failed other fails blank =>
            obtain ⟨found, finds, members, state, nodes', collected, last⟩ :=
              ih (s := ⟨_, _, false⟩) blank rfl ended
            exact ⟨found, .failed other fails finds, members, state, part ++ nodes',
              by rw [collected, Option.map_some], behind last⟩
        | joined other joins delivers same =>
            rw [startLoop_of_found rfl] at ended
            obtain ⟨nodes', collected, rest⟩ := Option.map_eq_some_iff.mp ended
            cases rest
            refine ⟨_, .joined seeds other joins delivers, same, ?_, part ++ nodes',
              by rw [collected, Option.map_some], behind rfl⟩
            simp only [begin, if_true, Found.state, same.leaderNode]
      · rename_i stopped
        exact absurd ended (stopped t)

/-- A loop over seeds that offer something ends, with what they offer. -/
theorem startLoop_of_finds (owns : host.ownText = inetNtoa own)
    (terminated : ∀ offer ∈ seeds, offer.1.ip4Address.Terminated) (blank : s.members.Blank)
    (searching : s.found = false) {found : Found} (finds : host.Finds o fits seeds found) :
    ∃ t, host.startLoop o fits seeds s = some (.next t) := by
  induction finds generalizing s with
  | nothing => exact ⟨s, rfl⟩
  | @itself seed trial seeds found itself rest ih =>
      obtain ⟨first, others⟩ := List.forall_mem_cons.mp terminated
      obtain ⟨part, checked⟩ := exists_checkSeed owns first
      rw [startLoop, startPass, checked]
      simp only [Option.bind_eq_bind, Option.bind_some, (continues_iff owns seed).mpr itself,
        if_true]
      exact ih others blank searching
  | @failed seed trial seeds found after other fails rest ih =>
      obtain ⟨first, others⟩ := List.forall_mem_cons.mp terminated
      obtain ⟨part, checked⟩ := exists_checkSeed owns first
      obtain ⟨_, tried, ⟨⟩⟩ := Trial.exists_tried blank fails
      rw [startLoop, startPass, checked]
      simp only [Option.bind_eq_bind, Option.bind_some, continues_iff owns, other, searching, tried,
        Bool.false_eq_true, if_false]
      exact ih others ‹_› rfl
  | @joined seed trial seeds after data leaderIndex keys other joins delivers =>
      obtain ⟨first, others⟩ := List.forall_mem_cons.mp terminated
      obtain ⟨part, checked⟩ := exists_checkSeed owns first
      obtain ⟨_, tried, ⟨⟩⟩ := Trial.exists_tried blank joins
      rw [startLoop, startPass, checked]
      simp only [Option.bind_eq_bind, Option.bind_some, continues_iff owns, other, searching, tried,
        Bool.false_eq_true, if_false]
      obtain ⟨nodes, collected⟩ := exists_checkAllPossibleSeeds owns
        (List.forall_mem_map.mpr others)
      rw [startLoop_of_found rfl, collected]
      exact ⟨_, rfl⟩

/-- The seeds offer a new server one thing, since an attempt has one end. -/
theorem Finds.unique {found found' : Found} (finds : host.Finds o fits seeds found)
    (finds' : host.Finds o fits seeds found') : found = found' := by
  induction finds with
  | nothing =>
      cases finds'
      rfl
  | itself itself rest ih =>
      cases finds' with
      | itself _ rest' => exact ih rest'
      | failed other => exact absurd itself other
      | joined _ other => exact absurd itself other
  | failed other fails rest ih =>
      cases finds' with
      | itself itself => exact absurd itself other
      | failed _ _ rest' => exact ih rest'
      | joined _ _ joins =>
          rw [fails] at joins
          cases joins
  | joined seeds other joins delivers =>
      cases finds' with
      | itself itself => exact absurd itself other
      | failed _ fails =>
          rw [fails] at joins
          cases joins
      | joined _ _ _ delivers' =>
          obtain ⟨rfl, rfl⟩ := delivers.unique delivers'
          rfl

/-- A server that gets through its seeds starts with what they offer a new server, whatever the
attempts that failed have left: the nodes, their records, the leader and the role are those of the
listing of the first seed that accepts it, or it leads a cluster of its own if none does. And it
does get through them if every seed before that one only fails it. -/
theorem startup_begins_with_found (owns : host.ownText = inetNtoa own)
    (terminated : ∀ offer ∈ seeds, offer.1.ip4Address.Terminated) :
    (∀ s, host.start o fits seeds = some (.next s) →
      ∃ found, host.Finds o fits seeds found ∧ host.BeginsWith ownPort fits seeds found s) ∧
    ∀ found, host.Finds o fits seeds found →
      ∃ s, host.start o fits seeds = some (.next s) ∧
        host.BeginsWith ownPort fits seeds found s := by
  have completes {s : Beginning} (started : host.start o fits seeds = some (.next s)) :
      ∃ found, host.Finds o fits seeds found ∧ host.BeginsWith ownPort fits seeds found s := by
    rw [start] at started
    split at started
    · cases started
    · cases started
    · rename_i t ended
      cases started
      obtain ⟨found, finds, members, state, nodes, collected, last⟩ :=
        finds_of_startLoop owns blank_unjoined rfl ended
      refine ⟨found, finds, members, state, ?_⟩
      rw [collected, allPossibleNodes_begin, last, List.nil_append]
  refine ⟨fun s => completes, fun found finds => ?_⟩
  obtain ⟨t, ended⟩ := startLoop_of_finds (s := ⟨unjoined, [], false⟩) owns terminated
    blank_unjoined rfl finds
  have started : host.start o fits seeds = some (.next (host.begin fits t)) := by
    rw [start, ended]
  obtain ⟨found', finds', begins⟩ := completes started
  obtain rfl := finds.unique finds'
  exact ⟨_, started, begins⟩

/-- The seed sends a listing of one node, the leader, and then takes nothing more. -/
def brokenTrial : Trial :=
  ⟨fun _ => true, 3, true, [], [1, 0, 0, 0, 0, 0, 1, 0, 0, 0] ++ List.replicate 28 0, 8⟩

/-- The same listing without a leader, and the seed accepts. -/
def acceptingTrial : Trial :=
  ⟨fun _ => true, 3, true, [],
    [1, 0, 255, 255, 255, 255, 1, 0, 0, 0] ++ List.replicate 28 0 ++
      [ReceiveRequest.toNewNodeAddPartitions.code, 0, 0, 0, 0], 12⟩

/-- An attempt that fails leaves the pointer to the leader on a node. -/
def leavesLeader (node : NodeIdentifierKey) : Tried → Bool
  | .failed after => decide (after.members.leaderNode = some node)
  | _ => false

/-- An attempt joins. -/
def hasJoined : Tried → Bool
  | .joined _ _ => true
  | _ => false

/-- The first attempt leaves the pointer to the leader on a deleted node; the second joins a
cluster that has none, and the server starts as a candidate. -/
theorem startup_after_broken_seed : ∃ fits : IsInt 9030,
    (withLoopback ⟨192, 168, 0, 10⟩).ownText = inetNtoa ⟨192, 168, 0, 10⟩ ∧
    (∃ after, brokenTrial.tried .little ((withLoopback ⟨192, 168, 0, 10⟩).ownKey 9030 fits) .zero
      unjoined = some (.failed after) ∧ after.members.leaderNode = some .zero) ∧
    ∃ s, (withLoopback ⟨192, 168, 0, 10⟩).start .little fits
        [(.zero, brokenTrial), (.zero, acceptingTrial)] = some (.next s) ∧
      s.state = .candidate ∧
      (withLoopback ⟨192, 168, 0, 10⟩).BeginsWith 9030 fits
        [(.zero, brokenTrial), (.zero, acceptingTrial)] (.cluster [.zero] (-1)) s := by
  have owns : (withLoopback ⟨192, 168, 0, 10⟩).ownText = inetNtoa ⟨192, 168, 0, 10⟩ := by decide
  have fits : IsInt 9030 := by decide
  have other : ¬(withLoopback ⟨192, 168, 0, 10⟩).IsOwn 9030 .zero := by decide
  obtain ⟨after, broken, left⟩ : ∃ after,
      brokenTrial.tried .little ((withLoopback ⟨192, 168, 0, 10⟩).ownKey 9030 fits) .zero
        unjoined = some (.failed after) ∧ after.members.leaderNode = some .zero := by
    have check : (brokenTrial.tried .little
        ((withLoopback ⟨192, 168, 0, 10⟩).ownKey 9030 (by decide)) .zero unjoined).any
          (leavesLeader .zero) = true := by decide +kernel
    obtain ⟨tried, ended, leaves⟩ := (Option.any_eq_true ..).mp check
    cases tried with
    | failed after => exact ⟨after, ended, of_decide_eq_true leaves⟩
    | _ => cases leaves
  obtain ⟨after', data, accepted⟩ : ∃ after data,
      acceptingTrial.tried .little ((withLoopback ⟨192, 168, 0, 10⟩).ownKey 9030 fits) .zero
        unjoined = some (.joined after data) := by
    have check : (acceptingTrial.tried .little
        ((withLoopback ⟨192, 168, 0, 10⟩).ownKey 9030 (by decide)) .zero unjoined).any
          hasJoined = true := by decide +kernel
    obtain ⟨tried, ended, joins⟩ := (Option.any_eq_true ..).mp check
    cases tried with
    | joined after data => exact ⟨after, data, ended⟩
    | _ => cases joins
  have delivers : Attempt.Delivers .little acceptingTrial.link (-1) [.zero] :=
    ⟨⟨[1, 0], rfl⟩, ⟨[255, 255, 255, 255], rfl⟩, ⟨[1, 0, 0, 0], rfl⟩, 1,
      ⟨List.replicate 28 0, rfl⟩, _, rfl, by decide, by decide, by decide, by decide, by decide,
      by decide⟩
  have finds : (withLoopback ⟨192, 168, 0, 10⟩).Finds .little fits
      [(.zero, brokenTrial), (.zero, acceptingTrial)] (.cluster [.zero] (-1)) :=
    .failed other broken (.joined [] other accepted delivers)
  have candidate : (Found.cluster [.zero] (-1)).state
      ((withLoopback ⟨192, 168, 0, 10⟩).ownKey 9030 (by decide)) = .candidate := by
    decide +kernel
  obtain ⟨s, started, begins⟩ := (startup_begins_with_found owns (by decide)).2 _ finds
  exact ⟨fits, owns, ⟨after, broken, left⟩, s, started, begins.state.trans candidate, begins⟩

end Host

end Tcp

end CppRaft
