import CppRaft.Machine.Text
import CppRaft.Tcp.Wire

/-!
# Addresses in node keys

A node key holds the text of an IPv4 address in 24 bytes and is compared as a whole. The own
key is built by `GetOwnIp4Address`, which copies the address of every interface it passes over
the one before it; the key of another node by `set_ip4Address1` and `set_ip4Address2`, which pad
the text. The two agree exactly if no earlier address shows behind the own one.
-/

namespace CppRaft

namespace Tcp

open Machine

/-- `struct in_addr`, by its octets. -/
structure InAddr where
  first : UInt8
  second : UInt8
  third : UInt8
  fourth : UInt8
  deriving DecidableEq, Repr

/-- The character of a decimal digit. -/
def digit (n : ℕ) : UInt8 :=
  UInt8.ofNat (48 + n)

/-- The decimal text of an octet. -/
def octetText (octet : UInt8) : List UInt8 :=
  let n := octet.toNat
  if n < 10 then [digit n]
  else if n < 100 then [digit (n / 10), digit (n % 10)]
  else [digit (n / 100), digit (n / 10 % 10), digit (n % 10)]

/-- The character between octets. -/
def dot : UInt8 := 46

/-- `inet_ntoa`, and what `inet_ntop` writes before the terminator. -/
def inetNtoa (address : InAddr) : List UInt8 :=
  List.intercalate [dot] [octetText address.first, octetText address.second,
    octetText address.third, octetText address.fourth]

/-- The octet with a decimal text. -/
def octetOf? (text : List UInt8) : Option UInt8 :=
  let octet := UInt8.ofNat (text.foldl (fun value byte => 10 * value + (byte.toNat - 48)) 0)
  if octetText octet = text then some octet else none

/-- The address with a dotted text. -/
def inetAddr? (text : List UInt8) : Option InAddr :=
  match text.splitOn dot with
  | [first, second, third, fourth] => do
      return ⟨← octetOf? first, ← octetOf? second, ← octetOf? third, ← octetOf? fourth⟩
  | _ => none

/-- The code of a decimal digit. -/
theorem toNat_digit {k : ℕ} (small : k < 10) : (digit k).toNat = 48 + k := by
  rw [digit, UInt8.toNat_ofNat']
  omega

/-- An octet is written with digits. -/
theorem exists_digit_of_mem {octet byte : UInt8} (member : byte ∈ octetText octet) :
    ∃ k < 10, byte = digit k := by
  have bounded := octet.toNat_lt
  rw [octetText] at member
  split at member
  · exact ⟨octet.toNat, ‹_›, List.mem_singleton.mp member⟩
  · split at member
    · rcases List.mem_pair.mp member with rfl | rfl
      · exact ⟨_, by omega, rfl⟩
      · exact ⟨_, Nat.mod_lt _ (by decide), rfl⟩
    · rcases List.mem_cons.mp member with rfl | rest
      · exact ⟨_, by omega, rfl⟩
      · rcases List.mem_pair.mp rest with rfl | rfl
        · exact ⟨_, Nat.mod_lt _ (by decide), rfl⟩
        · exact ⟨_, Nat.mod_lt _ (by decide), rfl⟩

/-- No byte below the digits stands in the text of an octet. -/
theorem notMem_octetText {byte : UInt8} (below : byte.toNat < 48) (octet : UInt8) :
    byte ∉ octetText octet := by
  intro member
  obtain ⟨k, small, same⟩ := exists_digit_of_mem member
  have value := congrArg UInt8.toNat same
  rw [toNat_digit small] at value
  omega

/-- An octet is written with three digits at most. -/
theorem length_octetText (octet : UInt8) : (octetText octet).length ≤ 3 := by
  rw [octetText]
  split
  · simp
  · split <;> simp

/-- The digits of an octet give its value. -/
theorem octetOf?_octetText (octet : UInt8) : octetOf? (octetText octet) = some octet := by
  have value : (octetText octet).foldl (fun value byte => 10 * value + (byte.toNat - 48)) 0 =
      octet.toNat := by
    have bounded := octet.toNat_lt
    rw [octetText]
    split
    · rw [List.foldl_cons, List.foldl_nil, toNat_digit ‹_›]
      omega
    · split
      · rw [List.foldl_cons, List.foldl_cons, List.foldl_nil, toNat_digit (by omega),
          toNat_digit (by omega)]
        omega
      · rw [List.foldl_cons, List.foldl_cons, List.foldl_cons, List.foldl_nil,
          toNat_digit (by omega), toNat_digit (by omega), toNat_digit (by omega)]
        omega
  rw [octetOf?, value, UInt8.ofNat_toNat, if_pos rfl]

/-- A dotted text gives back the address that it was written for. -/
theorem inetAddr?_inetNtoa (address : InAddr) : inetAddr? (inetNtoa address) = some address := by
  have split : (inetNtoa address).splitOn dot =
      [octetText address.first, octetText address.second, octetText address.third,
        octetText address.fourth] := by
    refine List.splitOn_intercalate dot ?_ (List.cons_ne_nil _ _)
    simp only [List.forall_mem_cons, List.not_mem_nil, false_implies, implies_true, and_true]
    have undotted := notMem_octetText (show dot.toNat < 48 by decide)
    exact ⟨undotted _, undotted _, undotted _, undotted _⟩
  simp only [inetAddr?, split, octetOf?_octetText]
  rfl

/-- Different addresses have different texts. -/
theorem inetNtoa_injective : Function.Injective inetNtoa := by
  intro address address' same
  have back := congrArg inetAddr? same
  rw [inetAddr?_inetNtoa, inetAddr?_inetNtoa] at back
  exact Option.some.inj back

/-- The text of an address, nested as it is copied. -/
theorem inetNtoa_eq (address : InAddr) :
    inetNtoa address = octetText address.first ++ dot :: (octetText address.second ++
      dot :: (octetText address.third ++ dot :: octetText address.fourth)) := by
  simp [inetNtoa, List.intercalate]

/-- The text of an address has no zero byte. -/
theorem isText_inetNtoa (address : InAddr) : IsText (inetNtoa address) := by
  rw [IsText, inetNtoa_eq]
  have nonzero := notMem_octetText (show (0 : UInt8).toNat < 48 by decide)
  simp [nonzero, dot]

/-- The text of an address is shorter than the field of a key. -/
theorem length_inetNtoa (address : InAddr) : (inetNtoa address).length < maxIp4Len := by
  have first := length_octetText address.first
  have second := length_octetText address.second
  have third := length_octetText address.third
  have fourth := length_octetText address.fourth
  rw [inetNtoa_eq, maxIp4Len]
  simp only [List.length_append, List.length_cons]
  omega

/-- `gethostbyname`: a partial function that maps a dotted address to itself. -/
structure Resolver where
  resolve : List UInt8 → Option InAddr
  dotted : ∀ address, resolve (inetNtoa address) = some address

/-- A resolver that knows dotted addresses only. -/
def Resolver.numeric : Resolver where
  resolve := inetAddr?
  dotted := inetAddr?_inetNtoa

/-- The family and the address of an interface. -/
inductive IfAddr where
  | inet (address : InAddr)
  | inet6
  | other
  deriving DecidableEq, Repr

/-- An element of the list of `getifaddrs`. -/
structure Interface where
  name : List UInt8
  addr : IfAddr
  deriving DecidableEq, Repr

/-- What a node sees of its machine. -/
structure Host where
  interfaces : List Interface
  resolver : Resolver

/-- The name of the loopback interface, `lo`. -/
def loopbackName : List UInt8 := [108, 111]

/-- `127.0.0.1`. -/
def loopback : InAddr := ⟨127, 0, 0, 1⟩

/-- The loop of `GetOwnIp4Address`: every IPv4 address is copied, and the first one that is not of
the loopback interface ends it. -/
def scanInterfaces : List Interface → Block maxIp4Len → Block maxIp4Len
  | [], buffer => buffer
  | ifa :: rest, buffer =>
      match ifa.addr with
      | .inet address =>
          let buffer := buffer.overwrite (inetNtoa address)
          if ifa.name = loopbackName then scanInterfaces rest buffer else buffer
      | .inet6 => scanInterfaces rest buffer
      | .other => scanInterfaces rest buffer

/-- `GetOwnIp4Address`. -/
def getOwnIp4Address (interfaces : List Interface) : Block maxIp4Len :=
  scanInterfaces interfaces (.zeros maxIp4Len)

/-- `NodeIdentifierKey::set_ip4Address1`. -/
def Host.setIp4Address1 (host : Host) (hostName : List UInt8) : Block maxIp4Len :=
  let ipAddress := ((host.resolver.resolve hostName).map inetNtoa).getD hostName
  if ipAddress = inetNtoa loopback then getOwnIp4Address host.interfaces
  else .padded maxIp4Len ipAddress

/-- `NodeIdentifierKey::set_ip4Address2`. -/
def Host.setIp4Address2 (host : Host) (remoteAddr : InAddr) : Block maxIp4Len :=
  if inetNtoa remoteAddr = inetNtoa loopback then getOwnIp4Address host.interfaces
  else .padded maxIp4Len (inetNtoa remoteAddr)

/-- The addresses that `GetOwnIp4Address` copies, in order. -/
def copiedAddresses : List Interface → List InAddr
  | [] => []
  | ifa :: rest =>
      match ifa.addr with
      | .inet address =>
          if ifa.name = loopbackName then address :: copiedAddresses rest else [address]
      | .inet6 => copiedAddresses rest
      | .other => copiedAddresses rest

/-- The loop over the interfaces copies the texts of their addresses over one another, into
a buffer that is cleared once. -/
theorem scanInterfaces_eq (interfaces : List Interface) (buffer : Block maxIp4Len) :
    scanInterfaces interfaces buffer =
      ((copiedAddresses interfaces).map inetNtoa).foldl (fun b text => b.overwrite text)
        buffer := by
  induction interfaces generalizing buffer with
  | nil => rfl
  | cons ifa rest ih =>
      rw [scanInterfaces, copiedAddresses]
      cases ifa.addr with
      | inet address =>
          simp only
          split
          · exact ih _
          · rfl
      | inet6 => exact ih buffer
      | other => exact ih buffer

/-- The texts that `GetOwnIp4Address` copies, the latest first. -/
def copiedTexts (interfaces : List Interface) : List (List UInt8) :=
  (copiedAddresses interfaces).reverse.map inetNtoa

/-- Every text of an address fits the buffer of a key, with its terminator. -/
theorem fits_map_inetNtoa (addresses : List InAddr) :
    ∀ text ∈ addresses.map inetNtoa, IsText text ∧ text.length < maxIp4Len := by
  intro text member
  obtain ⟨address, _, rfl⟩ := List.mem_map.mp member
  exact ⟨isText_inetNtoa address, length_inetNtoa address⟩

/-- The own address as the result of the copies, the latest of which is on top. -/
theorem getOwnIp4Address_eq_foldr (interfaces : List Interface) :
    getOwnIp4Address interfaces =
      (copiedTexts interfaces).foldr Block.overwrite (.zeros maxIp4Len) := by
  rw [getOwnIp4Address, scanInterfaces_eq, List.foldl_eq_foldr_reverse, ← List.map_reverse]
  rfl

/-- The own address and the ones that were copied before it, the latest first. -/
theorem getOwnIp4Address_eq {interfaces : List Interface} {own : InAddr} {earlier : List InAddr}
    (copied : (copiedAddresses interfaces).reverse = own :: earlier) :
    getOwnIp4Address interfaces =
      ((earlier.map inetNtoa).foldr Block.overwrite (.zeros maxIp4Len)).overwrite
        (inetNtoa own) := by
  rw [getOwnIp4Address_eq_foldr, copiedTexts, copied]
  rfl

/-- Two machines have the same own address field if their copies leave the same bytes. -/
theorem getOwnIp4Address_eq_iff (interfaces others : List Interface) :
    getOwnIp4Address interfaces = getOwnIp4Address others ↔
      ∀ i < maxIp4Len, Block.latestByte (copiedTexts interfaces) i =
        Block.latestByte (copiedTexts others) i := by
  have short (interfaces : List Interface) : ∀ text ∈ copiedTexts interfaces,
      text.length < maxIp4Len :=
    fun text member => (fits_map_inetNtoa _ text member).2
  rw [Block.eq_iff_getD, getOwnIp4Address_eq_foldr, getOwnIp4Address_eq_foldr]
  simp only [Block.getD_foldr_overwrite (short _)]

/-- The own address field is the padded one exactly if the own address covers the earlier ones. -/
theorem getOwnIp4Address_eq_padded_iff {interfaces : List Interface} {own : InAddr}
    {earlier : List InAddr} (copied : (copiedAddresses interfaces).reverse = own :: earlier) :
    getOwnIp4Address interfaces = .padded maxIp4Len (inetNtoa own) ↔
      Block.Covers ((inetNtoa own).length + 1)
        (earlier.map fun address => (inetNtoa address).length) := by
  rw [getOwnIp4Address_eq copied, Block.overwrite_eq_padded_iff (length_inetNtoa own),
    Block.zeroFrom_foldr_iff (fits_map_inetNtoa earlier), List.map_map]
  rfl

namespace Host

variable (host : Host)

/-- For a dotted text, setting the address by name is setting it by address. -/
theorem setIp4Address1_inetNtoa (address : InAddr) :
    host.setIp4Address1 (inetNtoa address) = host.setIp4Address2 address := by
  rw [setIp4Address1, setIp4Address2, host.resolver.dotted]
  rfl

/-- The loopback address is replaced by the own address of the host, with whatever bytes its
buffer has after the terminator. -/
theorem setIp4Address2_eq (address : InAddr) :
    host.setIp4Address2 address =
      if address = loopback then getOwnIp4Address host.interfaces
      else .padded maxIp4Len (inetNtoa address) := by
  simp only [setIp4Address2, inetNtoa_injective.eq_iff]

/-- The key that `AddOwnNode` builds. -/
def ownKey (port : Int) (fits : IsInt port) : NodeIdentifierKey where
  port := port
  ip4Address := getOwnIp4Address host.interfaces
  portFits := fits

/-- The key of a node by the text of its address. -/
def keyByName (hostName : List UInt8) (port : Int) (fits : IsInt port) : NodeIdentifierKey where
  port := port
  ip4Address := host.setIp4Address1 hostName
  portFits := fits

/-- The key of a node by the address of its connection. -/
def keyByAddress (remoteAddr : InAddr) (port : Int) (fits : IsInt port) : NodeIdentifierKey where
  port := port
  ip4Address := host.setIp4Address2 remoteAddr
  portFits := fits

variable {host}

/-- The own key of a node is the one that another node builds for the same address and port
exactly if nothing of the addresses that were copied before the own one shows behind it. A node
that has the loopback address only is taken for the node that builds the key, so that the copies
of the two have to agree. -/
theorem own_key_canonical_iff (o : ByteOrder) (other : Host) {port : Int} (fits : IsInt port)
    {own : InAddr} {earlier : List InAddr}
    (copied : (copiedAddresses host.interfaces).reverse = own :: earlier) :
    ((host.ownKey port fits).image o = (other.keyByAddress own port fits).image o ∧
      (host.ownKey port fits).image o = (other.keyByName (inetNtoa own) port fits).image o) ↔
    if own = loopback then
      ∀ i < maxIp4Len, Block.latestByte (copiedTexts host.interfaces) i =
        Block.latestByte (copiedTexts other.interfaces) i
    else Block.Covers ((inetNtoa own).length + 1)
      (earlier.map fun address => (inetNtoa address).length) := by
  have byName : other.keyByName (inetNtoa own) port fits = other.keyByAddress own port fits :=
    NodeIdentifierKey.ext rfl (other.setIp4Address1_inetNtoa own)
  have addresses : (host.ownKey port fits).image o = (other.keyByAddress own port fits).image o ↔
      getOwnIp4Address host.interfaces = other.setIp4Address2 own := by
    rw [Block.ext_iff, (NodeIdentifierKey.image_injective o).eq_iff, NodeIdentifierKey.ext_iff]
    exact and_iff_right rfl
  rw [byName, and_self_iff, addresses, setIp4Address2_eq]
  split
  · exact getOwnIp4Address_eq_iff host.interfaces other.interfaces
  · exact getOwnIp4Address_eq_padded_iff copied

/-- A host with the loopback interface first and an address at `eth0`. -/
def withLoopback (address : InAddr) : Host where
  interfaces := [⟨loopbackName, .inet loopback⟩, ⟨[101, 116, 104, 48], .inet address⟩]
  resolver := .numeric

/-- `192.168.0.10` is longer than `127.0.0.1`. -/
theorem own_key_canonical_long : ∃ fits : IsInt 9030,
    (copiedAddresses (withLoopback ⟨192, 168, 0, 10⟩).interfaces).reverse =
        [⟨192, 168, 0, 10⟩, loopback] ∧
      ((withLoopback ⟨192, 168, 0, 10⟩).ownKey 9030 fits).image .little =
        ((withLoopback ⟨192, 168, 0, 11⟩).keyByAddress ⟨192, 168, 0, 10⟩ 9030 fits).image .little ∧
      ((withLoopback ⟨192, 168, 0, 10⟩).ownKey 9030 fits).image .little =
        ((withLoopback ⟨192, 168, 0, 11⟩).keyByName (inetNtoa ⟨192, 168, 0, 10⟩) 9030 fits).image
          .little :=
  ⟨by decide, by decide,
    (own_key_canonical_iff .little (withLoopback ⟨192, 168, 0, 11⟩) (by decide)
      (show (copiedAddresses (withLoopback ⟨192, 168, 0, 10⟩).interfaces).reverse =
        [⟨192, 168, 0, 10⟩, loopback] by decide)).mpr (by decide)⟩

/-- `1.2.3.4` is two characters shorter than `127.0.0.1`, whose last one stays. -/
theorem own_key_shows_loopback : ∃ fits : IsInt 9030,
    (copiedAddresses (withLoopback ⟨1, 2, 3, 4⟩).interfaces).reverse =
        [⟨1, 2, 3, 4⟩, loopback] ∧
      ((withLoopback ⟨1, 2, 3, 4⟩).ownKey 9030 fits).image .little ≠
        ((withLoopback ⟨1, 2, 3, 5⟩).keyByAddress ⟨1, 2, 3, 4⟩ 9030 fits).image .little ∧
      ((withLoopback ⟨1, 2, 3, 4⟩).ownKey 9030 fits).image .little ≠
        ((withLoopback ⟨1, 2, 3, 5⟩).keyByName (inetNtoa ⟨1, 2, 3, 4⟩) 9030 fits).image
          .little :=
  ⟨by decide, by decide, by decide, by decide⟩

end Host

end Tcp

end CppRaft
