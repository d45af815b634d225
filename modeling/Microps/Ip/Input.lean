import Microps.Ip.Addr
import Mathlib.Data.Nat.Bitwise

/-!
# Interfaces and IP ingress

`ip_iface_alloc` fills an interface from two dotted quads and derives its
broadcast address, `ip_iface_register` puts it at the front of `ifaces`, and
`ip_iface_select` returns the first interface on the list with a given unicast
address.  `ip_input` checks a datagram field by field and returns early, with a
message, at the first check that fails; a datagram that passes them all is
logged and dumped (`IpDelivered`).  This version hands nothing to an upper
layer.

Two of the checks of `ip_input` read host values rather than network ones, so
the model takes the host's byte order (`ByteOrder`).  `ntoh16(hdr->vhl)`
widens the byte to 16 bits first, and on a little-endian host the swap moves it
into the high byte, where `& 0x0f * 4` (that is `& 60`) finds nothing:
`hlen_little` says the header length `ip_input` computes there is 0.  The
constant `0xff000000` of the directed-broadcast test is a host value too; its
bytes in memory are `ntoh32 o 0xff000000` read in network order.  The one's
complement sum commutes with swapping the bytes of every word, so the
checksum's host value is `ntoh16` of the big-endian one.

* `ipInput_eq_ok_iff`: the datagrams `ip_input` delivers, on either host.  The
  header length never rejects one (`hlen_lt_ipHdrSizeMin`), the checksum is
  taken over every byte, and the directed broadcast is the unicast address with
  the host value `0xff000000` or'ed in.
* `ipInput_ingressAccepts`: three datagrams on which `ip_input` and the rule of
  the spec (`ingressAccepts`) disagree, one for each of these.
-/

namespace Microps.Ip

/-! ## Host byte order -/

/-- The byte order of the host the stack runs on. -/
inductive ByteOrder
  | little
  | big
  deriving DecidableEq, Repr

/-- `ntoh16` on a host of byte order `o`: the identity on a big-endian host, a
swap of the two bytes on a little-endian one.  The swap is its own inverse, so
`hton16` is the same function (`ntoh16_ntoh16`). -/
def ntoh16 : ByteOrder → BitVec 16 → BitVec 16
  | .big, x => x
  | .little, x => rd16At (be16 x).reverse 0

/-- `ntoh32` on a host of byte order `o`; like `ntoh16`, it is `hton32` too. -/
def ntoh32 : ByteOrder → BitVec 32 → BitVec 32
  | .big, x => x
  | .little, x => rd32At (be32 x).reverse 0

theorem be16_rd16At (a b : BitVec 8) : be16 (rd16At [a, b] 0) = [a, b] := by
  have := a.isLt; have := b.isLt
  simp only [be16, rd16At, List.getD_cons_zero, List.getD_cons_succ, BitVec.toNat_ofNat, List.cons.injEq,
    and_true]
  constructor <;> apply BitVec.eq_of_toNat_eq <;> simp only [BitVec.toNat_ofNat] <;> omega

theorem ntoh16_ntoh16 (o : ByteOrder) (x : BitVec 16) : ntoh16 o (ntoh16 o x) = x := by
  cases o with
  | big => rfl
  | little =>
    have h : (be16 x).reverse = [(be16 x).getD 1 0, (be16 x).getD 0 0] := rfl
    rw [ntoh16, ntoh16, h, be16_rd16At]
    exact rd16At_be16 x []

theorem ntoh32_ntoh32 (o : ByteOrder) (x : BitVec 32) : ntoh32 o (ntoh32 o x) = x := by
  cases o with
  | big => rfl
  | little =>
    have h : (be32 x).reverse = [octet x 3, octet x 2, octet x 1, octet x 0] := by rw [be32_eq]; rfl
    have h' : [octet x 3, octet x 2, octet x 1, octet x 0].reverse = be32 x := by rw [be32_eq]; rfl
    rw [ntoh32, ntoh32, h, be32_rd32At, h']
    exact rd32At_be32 x []

/-! ## Interfaces -/

/-- `struct ip_iface`: the addresses of an interface, in network order.  Its
`next` link is the order of `ifaces`, and its family is always IP. -/
structure IpIface where
  unicast : BitVec 32
  netmask : BitVec 32
  broadcast : BitVec 32
  deriving DecidableEq, Repr

/-- `ip_iface_alloc(unicast, netmask)`.  `mem` is what `memory_alloc`
returned: `none` for NULL, and otherwise what the `unicast` and `netmask`
fields of the fresh block hold.  The results of `ip_addr_pton` are not read. -/
def ipIfaceAlloc (mem : Option (BitVec 32 × BitVec 32)) (unicast netmask : List Char) : Option IpIface :=
  mem.map fun (u, m) =>
    let u := (ipAddrPton unicast u).2
    let m := (ipAddrPton netmask m).2
    { unicast := u, netmask := m, broadcast := (u &&& m) ||| ~~~m }

/-- `ip_iface_register(dev, iface)`: the result and `ifaces` afterwards;
`added` is whether `net_device_add_iface` returned 0. -/
def ipIfaceRegister (ifaces : List IpIface) (added : Bool) (iface : IpIface) : Int × List IpIface :=
  if added then (0, iface :: ifaces) else (-1, ifaces)

/-- `ip_iface_select(addr)`: the first interface on `ifaces` whose unicast
address is `addr`. -/
def ipIfaceSelect (ifaces : List IpIface) (addr : BitVec 32) : Option IpIface :=
  ifaces.find? fun iface => iface.unicast == addr

/-! ## `ip_input` -/

/-- `IP_HDR_SIZE_MIN` of `ip.h`, which is not among the sources: the 20-byte
header without options. -/
def ipHdrSizeMin : Nat := 20

/-- `IP_VERSION_IPV4` of `ip.h`. -/
def ipVersionIpv4 : BitVec 8 := 4

/-- Where `ip_input` returns early: one constructor per message it logs before
a `return`, with the values the message prints. -/
inductive IpDrop
  /-- `"too short"` -/
  | tooShort
  /-- `"not IPv4"` -/
  | notIpv4
  /-- `"data is shorter than the designated header length. len=%d, hlen=%d"` -/
  | shorterThanHlen (len : Nat) (hlen : BitVec 16)
  /-- `"data is shorter than the designated total length. len=%d, total=%d"` -/
  | shorterThanTotal (len : Nat) (total : BitVec 16)
  /-- `"checksum verification failured. calculated=%04x, actual=%04x"` -/
  | checksum (calculated actual : BitVec 16)
  /-- `"fragments does not support"` -/
  | fragment
  /-- `"no valid ip address was registered to this device."` -/
  | noIface
  /-- `infof("%04x, %04x", iface->unicast, dst_ip_address)`: the datagram is not
  for the interface. -/
  | notForUs (unicast dst : BitVec 32)
  deriving DecidableEq, Repr

/-- Results of `ip_input` compare by value, so `decide` checks a run on a given
datagram. -/
instance decEqExcept {ε α : Type} [DecidableEq ε] [DecidableEq α] : DecidableEq (Except ε α)
  | .error a, .error b => decidable_of_iff (a = b) ⟨congrArg _, Except.error.inj⟩
  | .ok a, .ok b => decidable_of_iff (a = b) ⟨congrArg _, Except.ok.inj⟩
  | .error _, .ok _ => isFalse nofun
  | .ok _, .error _ => isFalse nofun

/-- A check of `ip_input` passes on the way to a delivery. -/
theorem ite_error_eq_ok {ε α : Type} {c : Prop} [Decidable c] {e : ε} {x : Except ε α} {r : α} :
    (if c then Except.error e else x) = .ok r ↔ ¬c ∧ x = .ok r := by
  by_cases h : c <;> simp [h]

/-- The end of `ip_input`: the interface, protocol and total length its
`debugf` prints, before `ip_dump(data, total)`. -/
structure IpDelivered where
  iface : IpIface
  protocol : BitVec 8
  total : BitVec 16
  deriving DecidableEq, Repr

/-- `ip_input(data, len, dev)` on a host of byte order `o`, with `len` the
length of `data` and `iface` what `net_device_get_iface(dev,
NET_IFACE_FAMILY_IP)` returns. -/
def ipInput (o : ByteOrder) (data : List (BitVec 8)) (iface : Option IpIface) :
    Except IpDrop IpDelivered := do
  let len := data.length
  if len < ipHdrSizeMin then throw .tooShort
  let vhl := data.getD 0 0
  if vhl >>> 4 ≠ ipVersionIpv4 then throw .notIpv4
  let hlen := ntoh16 o (vhl.setWidth 16) &&& 0x0f * 4
  let total := rd16At data 2
  if len < hlen.toNat then throw (.shorterThanHlen len hlen)
  if len < total.toNat then throw (.shorterThanTotal len total)
  let checksum := ntoh16 o (cksum16 data 0)
  if checksum ≠ 0 then throw (.checksum checksum (rd16At data 10))
  let offset := rd16At data 6
  if offset &&& 0x2000 ≠ 0 ∨ offset &&& 0x1fff ≠ 0 then throw .fragment
  let some iface := iface | throw .noIface
  let dst := rd32At data 16
  if iface.unicast ≠ dst ∧ dst ≠ 0xffffffff ∧ dst ≠ iface.unicast ||| ntoh32 o 0xff000000 then
    throw (.notForUs (ntoh32 o iface.unicast) (ntoh32 o dst))
  pure ⟨iface, data.getD 9 0, total⟩

/-- On a little-endian host the header length `ip_input` computes is 0 for
every `vhl`: the swap puts the byte above the mask. -/
theorem hlen_little (vhl : BitVec 8) : ntoh16 .little (vhl.setWidth 16) &&& 0x0f * 4 = 0 := by
  have hv := vhl.isLt
  have hb : (be16 (vhl.setWidth 16)).reverse = [vhl, 0] := by
    simp only [be16, List.reverse_cons, List.reverse_nil, List.nil_append, List.cons_append,
      List.cons.injEq, and_true]
    constructor <;> apply BitVec.eq_of_toNat_eq <;>
      simp only [BitVec.toNat_ofNat, BitVec.toNat_setWidth, BitVec.ofNat_eq_ofNat] <;> omega
  have hy : (ntoh16 .little (vhl.setWidth 16)).toNat = vhl.toNat * 2 ^ 8 := by
    simp only [ntoh16, hb, rd16At, List.getD_cons_zero, List.getD_cons_succ, BitVec.toNat_ofNat,
      BitVec.ofNat_eq_ofNat]
    omega
  have h60 : (2 ^ 8 - 1) &&& 60 = 60 := by
    rw [Nat.land_comm]; exact Nat.and_pow_two_sub_one_of_lt_two_pow (by decide)
  apply BitVec.eq_of_toNat_eq
  rw [BitVec.toNat_and, hy]
  calc vhl.toNat * 2 ^ 8 &&& (0x0f * 4 : BitVec 16).toNat
      = vhl.toNat * 2 ^ 8 &&& ((2 ^ 8 - 1) &&& 60) := by rw [h60]; rfl
    _ = (vhl.toNat * 2 ^ 8 &&& 2 ^ 8 - 1) &&& 60 := (Nat.land_assoc _ _ _).symm
    _ = 0 := by rw [Nat.and_pow_two_sub_one_eq_mod, Nat.mul_mod_left, Nat.zero_and]

/-- After the version check the header length `ip_input` computes is below 20
on either host, so the check `len < hlen` never drops a datagram. -/
theorem hlen_lt_ipHdrSizeMin (o : ByteOrder) {vhl : BitVec 8} (hv : vhl >>> 4 = ipVersionIpv4) :
    (ntoh16 o (vhl.setWidth 16) &&& 0x0f * 4).toNat < ipHdrSizeMin := by
  cases o with
  | little => rw [hlen_little]; decide
  | big => revert vhl; decide

theorem ntoh16_eq_zero (o : ByteOrder) (x : BitVec 16) : ntoh16 o x = 0 ↔ x = 0 := by
  constructor
  · intro h
    rw [← ntoh16_ntoh16 o x, h]
    cases o <;> rfl
  · rintro rfl
    cases o <;> rfl

/-- **What `ip_input` delivers.**  On either host, with an interface, a datagram
reaches the end of `ip_input` exactly when it is at least 20 bytes long, of
version 4, no shorter than its total length, sums to zero over all its bytes,
has no MF flag and no fragment offset, and is addressed to the unicast address,
to the limited broadcast, or to the unicast address with the host value
`0xff000000` or'ed in.  The header length plays no part. -/
theorem ipInput_eq_ok_iff (o : ByteOrder) (data : List (BitVec 8)) (iface : IpIface) :
    ipInput o data (some iface) = .ok ⟨iface, data.getD 9 0, rd16At data 2⟩ ↔
      ipHdrSizeMin ≤ data.length ∧ data.getD 0 0 >>> 4 = ipVersionIpv4 ∧
      (rd16At data 2).toNat ≤ data.length ∧ cksum16 data 0 = 0 ∧
      rd16At data 6 &&& 0x2000 = 0 ∧ rd16At data 6 &&& 0x1fff = 0 ∧
      (rd32At data 16 = iface.unicast ∨ rd32At data 16 = 0xffffffff ∨
        rd32At data 16 = iface.unicast ||| ntoh32 o 0xff000000) := by
  unfold ipInput
  simp only [bind, Except.bind, pure, Except.pure, ite_error_eq_ok, ntoh16_eq_zero, not_lt, not_not, ne_eq,
    not_or, not_and, and_true, and_assoc]
  simp only [@eq_comm _ iface.unicast, or_iff_not_imp_left]
  constructor
  · rintro ⟨hlen, hv, -, h⟩
    exact ⟨hlen, hv, h⟩
  · rintro ⟨hlen, hv, h⟩
    exact ⟨hlen, hv, ((hlen_lt_ipHdrSizeMin o hv).trans_le hlen).le, h⟩

/-- The rule of the spec for IP ingress, to compare `ip_input` with: a
datagram for an interface with unicast address `u` and netmask `m` is
delivered exactly when it is at least 20 bytes long and of version 4, its
header length `(vhl & 0x0f) * 4` is at least 20 and at most its length, its
total length is at most its length, the checksum over its header verifies, it
has no MF flag and no fragment offset, and it is addressed to `u`, to
255.255.255.255 or to `(u & m) | ~m`. -/
def ingressAccepts (data : List (BitVec 8)) (iface : IpIface) : Bool :=
  let vhl := data.getD 0 0
  let hlen := (vhl &&& 0x0f).toNat * 4
  let dst := rd32At data 16
  decide (ipHdrSizeMin ≤ data.length) && vhl >>> 4 == ipVersionIpv4 && decide (ipHdrSizeMin ≤ hlen) &&
    decide (hlen ≤ data.length) && decide ((rd16At data 2).toNat ≤ data.length) &&
    cksum16 (data.take hlen) 0 == 0 && rd16At data 6 &&& 0x3fff == 0 &&
    (dst == iface.unicast || dst == 0xffffffff || dst == (iface.unicast &&& iface.netmask) ||| ~~~iface.netmask)

/-- **`ip_input` against the rule of the spec**, on either host, for the
interface 10.0.0.2/24 or 10.0.0.2/16: it drops a datagram from 10.0.0.5 whose
header checksum verifies, because one byte of payload follows the header; it
delivers one whose header length (24) is longer than the datagram; and it drops
one for the directed broadcast 10.0.255.255 of the /16 interface. -/
theorem ipInput_ingressAccepts (o : ByteOrder) :
    ingressAccepts [0x45, 0, 0, 21, 0, 0, 0, 0, 64, 6, 0x66, 0xdd, 10, 0, 0, 5, 10, 0, 0, 2, 1]
        ⟨0x0a000002, 0xffffff00, 0x0a0000ff⟩ = true ∧
      (ipInput o [0x45, 0, 0, 21, 0, 0, 0, 0, 64, 6, 0x66, 0xdd, 10, 0, 0, 5, 10, 0, 0, 2, 1]
        (some ⟨0x0a000002, 0xffffff00, 0x0a0000ff⟩)).isOk = false ∧
    ingressAccepts [0x46, 0, 0, 20, 0, 0, 0, 0, 64, 6, 0x65, 0xde, 10, 0, 0, 5, 10, 0, 0, 2]
        ⟨0x0a000002, 0xffffff00, 0x0a0000ff⟩ = false ∧
      (ipInput o [0x46, 0, 0, 20, 0, 0, 0, 0, 64, 6, 0x65, 0xde, 10, 0, 0, 5, 10, 0, 0, 2]
        (some ⟨0x0a000002, 0xffffff00, 0x0a0000ff⟩)).isOk = true ∧
    ingressAccepts [0x45, 0, 0, 20, 0, 0, 0, 0, 64, 6, 0x66, 0xe0, 10, 0, 0, 5, 10, 0, 255, 255]
        ⟨0x0a000002, 0xffff0000, 0x0a00ffff⟩ = true ∧
      (ipInput o [0x45, 0, 0, 20, 0, 0, 0, 0, 64, 6, 0x66, 0xe0, 10, 0, 0, 5, 10, 0, 255, 255]
        (some ⟨0x0a000002, 0xffff0000, 0x0a00ffff⟩)).isOk = false := by
  cases o <;> decide

end Microps.Ip
