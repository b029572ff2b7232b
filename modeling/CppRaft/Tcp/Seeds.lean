import CppRaft.Tcp.Address

/-!
# The possible nodes

`CheckAllPossibleSeeds` goes through the configured seeds before the server joins a cluster and
collects the ones that are not the server itself in `m_allPossibleNodes`, which later drives the
search for a second leader. A seed whose name cannot be resolved is collected under its name, and
one on the own machine under the own address; a seed that resolves to any other machine is passed
over.
-/

namespace CppRaft

namespace Tcp

open Machine

namespace Host

variable (host : Host)

/-- The own address as a text, `vcOwnIp4Address`. -/
def ownText : List UInt8 :=
  (getOwnIp4Address host.interfaces).text

/-- One pass of the loop of `CheckAllPossibleSeeds`: the nodes it appends. An address field
without an end is read past by `gethostbyname`, and the pass has no meaning. -/
def checkSeed (ownPort : Int) (seed : NodeIdentifierKey) : Option (List NodeIdentifierKey) :=
  if host.ownText = seed.ip4Address.text ∧ ownPort = seed.port then some []
  else if ¬seed.ip4Address.Terminated then none
  else
    match host.resolver.resolve seed.ip4Address.text with
    | some address =>
        let posibleSeedIp := inetNtoa address
        if posibleSeedIp = inetNtoa loopback then
          if ownPort = seed.port then some []
          else some [host.keyByName host.ownText seed.port seed.portFits]
        else if host.ownText = posibleSeedIp then
          if ownPort = seed.port then some []
          else some [host.keyByName host.ownText seed.port seed.portFits]
        else some []
    | none => some [host.keyByName seed.ip4Address.text seed.port seed.portFits]

/-- `CheckAllPossibleSeeds`: what is in `m_allPossibleNodes` after it. -/
def checkAllPossibleSeeds (ownPort : Int) (seeds : List NodeIdentifierKey) :
    Option (List NodeIdentifierKey) :=
  seeds.foldlM (fun nodes seed => (host.checkSeed ownPort seed).map (nodes ++ ·)) []

/-- The address that a seed denotes on this machine, or its name where it cannot be resolved. -/
def addressOf (hostName : List UInt8) : List UInt8 :=
  match host.resolver.resolve hostName with
  | some address => if address = loopback then host.ownText else inetNtoa address
  | none => hostName

/-- The key has the own address and port. -/
def IsOwn (ownPort : Int) (key : NodeIdentifierKey) : Prop :=
  host.addressOf key.ip4Address.text = host.ownText ∧ key.port = ownPort

instance (ownPort : Int) (key : NodeIdentifierKey) : Decidable (host.IsOwn ownPort key) :=
  inferInstanceAs (Decidable (_ ∧ _))

/-- The seed resolves to another machine. -/
def Elsewhere (own : InAddr) (seed : NodeIdentifierKey) : Prop :=
  ∃ address, host.resolver.resolve seed.ip4Address.text = some address ∧
    address ≠ own ∧ address ≠ loopback

/-- A node of the vector is the one that a seed denotes. -/
def Denotes (seed node : NodeIdentifierKey) : Prop :=
  node.ip4Address.text = host.addressOf seed.ip4Address.text ∧ node.port = seed.port

/-- Every seed but the server itself is in the vector, and the server is not. -/
structure Remembers (ownPort : Int) (seeds nodes : List NodeIdentifierKey) : Prop where
  peers : ∀ seed ∈ seeds, ¬host.IsOwn ownPort seed → ∃ node ∈ nodes, host.Denotes seed node
  notOwn : ∀ node ∈ nodes, ¬(node.ip4Address.text = host.ownText ∧ node.port = ownPort)

variable {host} {own : InAddr} {ownPort : Int}

/-- A text is put into a key as the address that it denotes. -/
theorem text_setIp4Address1 {hostName : List UInt8} (isText : IsText hostName)
    (fits : hostName.length < maxIp4Len) :
    (host.setIp4Address1 hostName).text = host.addressOf hostName := by
  cases resolved : host.resolver.resolve hostName with
  | none =>
      have named : hostName ≠ inetNtoa loopback := by
        rintro rfl
        rw [host.resolver.dotted] at resolved
        exact Option.some_ne_none _ resolved
      simp only [setIp4Address1, addressOf, resolved, Option.map_none, Option.getD_none,
        if_neg named]
      exact Block.text_padded isText fits
  | some address =>
      simp only [setIp4Address1, addressOf, resolved, Option.map_some, Option.getD_some,
        inetNtoa_injective.eq_iff]
      split
      · rfl
      · exact Block.text_padded (isText_inetNtoa address) (length_inetNtoa address)

section

variable (owns : host.ownText = inetNtoa own)
include owns

/-- The own text denotes the own address. -/
theorem addressOf_ownText : host.addressOf host.ownText = host.ownText := by
  simp only [addressOf, owns, host.resolver.dotted]
  split <;> rfl

/-- A resolved seed has the own address if it resolves to it or to the loopback address. -/
theorem addressOf_eq_ownText_iff {hostName : List UInt8} {address : InAddr}
    (resolved : host.resolver.resolve hostName = some address) :
    host.addressOf hostName = host.ownText ↔ address = own ∨ address = loopback := by
  simp only [addressOf, resolved]
  split
  · exact iff_of_true rfl (Or.inr ‹_›)
  · rw [owns, inetNtoa_injective.eq_iff]
    exact (or_iff_left ‹_›).symm

/-- A name that cannot be resolved is not the own address. -/
theorem ne_ownText_of_unresolved {hostName : List UInt8}
    (unresolved : host.resolver.resolve hostName = none) : hostName ≠ host.ownText := by
  rintro rfl
  rw [owns, host.resolver.dotted] at unresolved
  exact Option.some_ne_none _ unresolved

/-- The node that is appended for a seed on the own machine. -/
theorem text_keyByName_ownText (port : Int) (fits : IsInt port) :
    (host.keyByName host.ownText port fits).ip4Address.text = host.ownText := by
  have isText : IsText host.ownText := owns ▸ isText_inetNtoa own
  have short : host.ownText.length < maxIp4Len := owns ▸ length_inetNtoa own
  exact (text_setIp4Address1 isText short).trans (addressOf_ownText owns)

/-- A seed on the own machine is appended under the own address unless it has the own port. -/
theorem checkSeed_resolved {seed : NodeIdentifierKey} (terminated : seed.ip4Address.Terminated)
    {address : InAddr} (resolved : host.resolver.resolve seed.ip4Address.text = some address) :
    host.checkSeed ownPort seed =
      if (address = own ∨ address = loopback) ∧ ownPort ≠ seed.port then
        some [host.keyByName host.ownText seed.port seed.portFits]
      else some [] := by
  simp only [checkSeed, if_neg (not_not_intro terminated), resolved, inetNtoa_injective.eq_iff]
  by_cases port : ownPort = seed.port
  · simp only [port, ne_eq, not_true_eq_false, and_false, if_false, if_true, ite_self]
  · simp only [port, ne_eq, not_false_eq_true, and_true, and_false, if_false, owns,
      inetNtoa_injective.eq_iff]
    by_cases local' : address = loopback
    · simp only [local', or_true, if_true]
    · simp only [local', or_false, if_false, eq_comm]

/-- A seed on another machine has an address that no other kind of seed has. -/
theorem elsewhere_of_addressOf_eq {seed seed' : NodeIdentifierKey}
    (elsewhere : host.Elsewhere own seed)
    (same : host.addressOf seed.ip4Address.text = host.addressOf seed'.ip4Address.text) :
    host.Elsewhere own seed' := by
  obtain ⟨address, resolved, notOwn, notLocal⟩ := elsewhere
  have first : host.addressOf seed.ip4Address.text = inetNtoa address := by
    simp only [addressOf, resolved, if_neg notLocal]
  rw [first] at same
  cases resolved' : host.resolver.resolve seed'.ip4Address.text with
  | none =>
      have named : host.addressOf seed'.ip4Address.text = seed'.ip4Address.text := by
        simp only [addressOf, resolved']
      rw [← named, ← same, host.resolver.dotted] at resolved'
      exact absurd resolved' (Option.some_ne_none _)
  | some address' =>
      have other : ¬(address' = own ∨ address' = loopback) := by
        rw [← addressOf_eq_ownText_iff owns resolved', ← same, owns, inetNtoa_injective.eq_iff]
        exact notOwn
      exact ⟨address', resolved', not_or.mp other⟩

/-- What a pass does with a seed: nothing for the server itself and for a seed on another machine,
and else it appends the node that the seed denotes. -/
theorem checkSeed_cases {seed : NodeIdentifierKey} (terminated : seed.ip4Address.Terminated) :
    (host.checkSeed ownPort seed = some [] ∧ (host.IsOwn ownPort seed ∨ host.Elsewhere own seed)) ∨
    ∃ node, host.checkSeed ownPort seed = some [node] ∧ host.Denotes seed node ∧
      ¬host.IsOwn ownPort seed ∧ ¬host.Elsewhere own seed := by
  cases resolved : host.resolver.resolve seed.ip4Address.text with
  | none =>
      have named := ne_ownText_of_unresolved owns resolved
      have address : host.addressOf seed.ip4Address.text = seed.ip4Address.text := by
        simp only [addressOf, resolved]
      refine Or.inr ⟨host.keyByName seed.ip4Address.text seed.port seed.portFits, ?_, ⟨?_, rfl⟩,
        ?_, ?_⟩
      · rw [checkSeed, if_neg (fun same => named same.1.symm), if_neg (not_not_intro terminated),
          resolved]
      · exact text_setIp4Address1 seed.ip4Address.isText_text terminated.length_text
      · exact fun isOwn => named (address.symm.trans isOwn.1)
      · rintro ⟨other, found, _⟩
        rw [resolved] at found
        exact Option.some_ne_none _ found.symm
  | some address =>
      have found (other : InAddr) : host.resolver.resolve seed.ip4Address.text = some other ↔
          other = address := by
        rw [resolved, Option.some.injEq, eq_comm]
      have elsewhere : host.Elsewhere own seed ↔ ¬(address = own ∨ address = loopback) := by
        simp only [Elsewhere, found, exists_eq_left, not_or, ne_eq]
      rw [checkSeed_resolved owns terminated resolved, elsewhere, IsOwn,
        addressOf_eq_ownText_iff owns resolved]
      by_cases here : address = own ∨ address = loopback
      · by_cases port : ownPort = seed.port
        · refine Or.inl ⟨if_neg fun test => test.2 port, Or.inl ⟨here, port.symm⟩⟩
        · refine Or.inr ⟨_, if_pos ⟨here, port⟩, ⟨?_, rfl⟩, fun isOwn => port isOwn.2.symm,
            not_not_intro here⟩
          rw [text_keyByName_ownText owns, (addressOf_eq_ownText_iff owns resolved).mpr here]
      · exact Or.inl ⟨if_neg fun test => here test.1, Or.inr here⟩

/-- A pass over a seed whose text ends inside its buffer is defined. -/
theorem exists_checkSeed {seed : NodeIdentifierKey} (terminated : seed.ip4Address.Terminated) :
    ∃ part, host.checkSeed ownPort seed = some part := by
  obtain ⟨nothing, _⟩ | ⟨node, one, _⟩ := checkSeed_cases owns terminated
  · exact ⟨[], nothing⟩
  · exact ⟨[node], one⟩

/-- A pass has no meaning for a seed whose address field has no end. -/
theorem terminated_of_checkSeed {seed : NodeIdentifierKey} {appended : List NodeIdentifierKey}
    (checked : host.checkSeed ownPort seed = some appended) : seed.ip4Address.Terminated := by
  by_contra endless
  have other : host.ownText ≠ seed.ip4Address.text := by
    intro same
    refine endless (Block.terminated_of_length_text ?_)
    exact same ▸ owns ▸ length_inetNtoa own
  rw [checkSeed, if_neg fun same => other same.1, if_pos endless] at checked
  exact Option.some_ne_none _ checked.symm

/-- What is appended for a seed is the node that it denotes, which is not the server. -/
theorem denotes_of_mem {seed node : NodeIdentifierKey} {appended : List NodeIdentifierKey}
    (checked : host.checkSeed ownPort seed = some appended) (member : node ∈ appended) :
    host.Denotes seed node ∧ ¬host.IsOwn ownPort seed ∧ ¬host.Elsewhere own seed := by
  obtain ⟨nothing, _⟩ | ⟨only, one, denotes⟩ :=
    checkSeed_cases owns (terminated_of_checkSeed owns checked)
  · rw [checked, Option.some.injEq] at nothing
    exact absurd (nothing ▸ member) List.not_mem_nil
  · rw [checked, Option.some.injEq] at one
    rw [one, List.mem_singleton] at member
    exact member ▸ denotes

end

/-- The passes over the seeds, from a vector that already has some nodes: each seed adds its
own, in order. -/
private theorem foldlM_checkSeed_iff {seeds nodes nodes' : List NodeIdentifierKey} :
    seeds.foldlM (fun nodes seed => (host.checkSeed ownPort seed).map (nodes ++ ·)) nodes =
        some nodes' ↔
      ∃ parts : List (List NodeIdentifierKey),
        seeds.map (host.checkSeed ownPort) = parts.map some ∧ nodes' = nodes ++ parts.flatten := by
  induction seeds generalizing nodes with
  | nil =>
      rw [List.foldlM_nil, Option.pure_def, Option.some.injEq]
      constructor
      · rintro rfl
        exact ⟨[], rfl, (List.append_nil _).symm⟩
      · rintro ⟨parts, empty, rfl⟩
        rw [List.map_eq_nil_iff.mp empty.symm, List.flatten_nil, List.append_nil]
  | cons seed seeds ih =>
      rw [List.foldlM_cons, Option.bind_eq_bind, Option.bind_eq_some_iff]
      simp only [ih, Option.map_eq_some_iff, List.map_cons]
      constructor
      · rintro ⟨_, ⟨part, checked, rfl⟩, parts, rest, rfl⟩
        exact ⟨part :: parts, List.cons_eq_cons.mpr ⟨checked, rest⟩, List.append_assoc _ _ _⟩
      · rintro ⟨parts, same, rfl⟩
        obtain ⟨part, parts, rfl, checked, rest⟩ := List.map_eq_cons_iff.mp same.symm
        exact ⟨_, ⟨part, checked.symm, rfl⟩, parts, rest.symm, (List.append_assoc _ _ _).symm⟩

/-- The passes have a meaning if each of them has. -/
private theorem exists_parts {seeds : List NodeIdentifierKey}
    (checked : ∀ seed ∈ seeds, ∃ part, host.checkSeed ownPort seed = some part) :
    ∃ parts : List (List NodeIdentifierKey),
      seeds.map (host.checkSeed ownPort) = parts.map some := by
  induction seeds with
  | nil => exact ⟨[], rfl⟩
  | cons seed seeds ih =>
      obtain ⟨⟨part, first⟩, others⟩ := List.forall_mem_cons.mp checked
      obtain ⟨parts, rest⟩ := ih others
      exact ⟨part :: parts, List.cons_eq_cons.mpr ⟨first, rest⟩⟩

/-- The vector holds what the passes append. -/
theorem mem_of_checkAllPossibleSeeds {seeds nodes : List NodeIdentifierKey}
    (collected : host.checkAllPossibleSeeds ownPort seeds = some nodes) :
    (∀ seed ∈ seeds, ∃ part, host.checkSeed ownPort seed = some part ∧ part ⊆ nodes) ∧
      ∀ node ∈ nodes, ∃ seed ∈ seeds, ∃ part, host.checkSeed ownPort seed = some part ∧
        node ∈ part := by
  obtain ⟨parts, checked, rfl⟩ := foldlM_checkSeed_iff.mp collected
  rw [List.nil_append]
  constructor
  · intro seed member
    have mapped : host.checkSeed ownPort seed ∈ parts.map some :=
      checked ▸ List.mem_map_of_mem member
    obtain ⟨part, among, same⟩ := List.mem_map.mp mapped
    exact ⟨part, same.symm, fun _ within => List.mem_flatten_of_mem among within⟩
  · intro node member
    obtain ⟨part, among, within⟩ := List.mem_flatten.mp member
    have mapped : some part ∈ seeds.map (host.checkSeed ownPort) :=
      checked ▸ List.mem_map_of_mem among
    obtain ⟨seed, first, same⟩ := List.mem_map.mp mapped
    exact ⟨seed, first, part, same, within⟩

/-- The nodes that the loop collects are every seed but the server itself, and never the server,
exactly if no seed resolves to another machine and every address field has an end. -/
theorem peers_remembered_iff (owns : host.ownText = inetNtoa own)
    (seeds : List NodeIdentifierKey) :
    (∃ nodes, host.checkAllPossibleSeeds ownPort seeds = some nodes ∧
      host.Remembers ownPort seeds nodes) ↔
    ∀ seed ∈ seeds, seed.ip4Address.Terminated ∧
      ∀ address, host.resolver.resolve seed.ip4Address.text = some address →
        address = own ∨ address = loopback := by
  constructor
  · rintro ⟨nodes, collected, remembers⟩ seed member
    obtain ⟨passes, origins⟩ := mem_of_checkAllPossibleSeeds collected
    obtain ⟨part, checked, _⟩ := passes seed member
    refine ⟨terminated_of_checkSeed owns checked, fun address resolved => ?_⟩
    by_contra other
    have notOwn : ¬host.IsOwn ownPort seed :=
      fun isOwn => other ((addressOf_eq_ownText_iff owns resolved).mp isOwn.1)
    obtain ⟨node, among, denotes⟩ := remembers.peers seed member notOwn
    obtain ⟨seed', _, part', checked', within⟩ := origins node among
    obtain ⟨denotes', _, here⟩ := denotes_of_mem owns checked' within
    exact here (elsewhere_of_addressOf_eq owns ⟨address, resolved, not_or.mp other⟩
      (denotes.1.symm.trans denotes'.1))
  · intro condition
    have defined : ∀ seed ∈ seeds, ∃ part, host.checkSeed ownPort seed = some part :=
      fun seed member => exists_checkSeed owns (condition seed member).1
    obtain ⟨parts, checked⟩ := exists_parts defined
    have collected : host.checkAllPossibleSeeds ownPort seeds = some parts.flatten :=
      foldlM_checkSeed_iff.mpr ⟨parts, checked, rfl⟩
    obtain ⟨passes, origins⟩ := mem_of_checkAllPossibleSeeds collected
    refine ⟨_, collected, ?_, ?_⟩
    · intro seed member notOwn
      obtain ⟨part, checked, within⟩ := passes seed member
      obtain ⟨_, isOwn | elsewhere⟩ | ⟨node, one, denotes, _⟩ :=
        checkSeed_cases owns (condition seed member).1
      · exact absurd isOwn notOwn
      · obtain ⟨address, resolved, other⟩ := elsewhere
        exact absurd ((condition seed member).2 address resolved) (not_or.mpr other)
      · rw [checked, Option.some.injEq] at one
        exact ⟨node, within (one ▸ List.mem_singleton_self node), denotes⟩
    · intro node member isOwn
      obtain ⟨seed, _, part, checked, within⟩ := origins node member
      obtain ⟨denotes, notOwn, _⟩ := denotes_of_mem owns checked within
      exact notOwn ⟨denotes.1.symm.trans isOwn.1, denotes.2.symm.trans isOwn.2⟩

/-- Two servers on one machine, of which the other is configured as `127.0.0.1:9031`. -/
theorem peers_remembered_same_machine : ∃ fits : IsInt 9031,
    (withLoopback ⟨192, 168, 0, 10⟩).ownText = inetNtoa ⟨192, 168, 0, 10⟩ ∧
      ∃ nodes, (withLoopback ⟨192, 168, 0, 10⟩).checkAllPossibleSeeds 9030
          [⟨9031, .padded maxIp4Len (inetNtoa loopback), fits⟩] = some nodes ∧
        (withLoopback ⟨192, 168, 0, 10⟩).Remembers 9030
          [⟨9031, .padded maxIp4Len (inetNtoa loopback), fits⟩] nodes := by
  have owns : (withLoopback ⟨192, 168, 0, 10⟩).ownText = inetNtoa ⟨192, 168, 0, 10⟩ := by decide
  refine ⟨by decide, owns, (peers_remembered_iff owns _).mpr ?_⟩
  intro seed member
  rw [List.mem_singleton.mp member]
  refine ⟨by decide, fun address resolved => Or.inr ?_⟩
  exact Option.some.inj (resolved.symm.trans (by decide))

/-- A server at `192.168.0.10` forgets the only peer it is configured with. -/
theorem peer_elsewhere_forgotten : ∃ fits : IsInt 9030,
    (withLoopback ⟨192, 168, 0, 10⟩).ownText = inetNtoa ⟨192, 168, 0, 10⟩ ∧
      (withLoopback ⟨192, 168, 0, 10⟩).checkAllPossibleSeeds 9030
        [⟨9030, .padded maxIp4Len (inetNtoa ⟨192, 168, 0, 11⟩), fits⟩] = some [] ∧
      ¬(withLoopback ⟨192, 168, 0, 10⟩).Remembers 9030
        [⟨9030, .padded maxIp4Len (inetNtoa ⟨192, 168, 0, 11⟩), fits⟩] [] := by
  refine ⟨by decide, by decide, by decide, fun remembers => ?_⟩
  obtain ⟨node, member, _⟩ := remembers.peers _ (List.mem_singleton_self _) (by decide)
  exact absurd member List.not_mem_nil

end Host

end Tcp

end CppRaft
