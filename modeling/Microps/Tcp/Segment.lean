import Microps.Wire

/-!
# TCP segments on the wire

`tcp_output_segment` lays a 20-byte header and the payload into a buffer, puts
the checksum over pseudo-header, header and payload into the header and hands
the first `total` bytes to `ip_output`; `tcp_input` checks the length, the
checksum and the addresses and calls `tcp_segment_arrives` with the header
fields, the payload pointer `hdr + hlen`, the length `len - hlen` and the
endpoints.  `tcpOutputSegment` is the bytes handed to `ip_output`, and
`tcpInput` the arguments of that call (`TcpArrival`), `none` where the segment
is dropped.

* `tcpInput_tcpOutputSegment`: what `tcp_input` makes of an emitted segment.
* `tcpInput_hlen_unchecked`: the header length is used as it stands in the
  offset field.
-/

namespace Microps

/-- `struct ip_endpoint`: an address and a port, both kept in network order. -/
structure IpEndpoint where
  addr : BitVec 32
  port : BitVec 16
  deriving DecidableEq, Repr

/-- `IP_ADDR_ANY`. -/
def ipAddrAny : BitVec 32 := 0

/-- `IP_ADDR_BROADCAST`. -/
def ipAddrBroadcast : BitVec 32 := 0xffffffff

/-- `IP_PAYLOAD_SIZE_MAX` of `ip.h`, which is not among the sources: the largest
IPv4 total length less the 20-byte minimal header. -/
def ipPayloadSizeMax : Nat := 65535 - 20

namespace Tcp

/-! ### Header -/

def flgFin : BitVec 8 := 0x01
def flgSyn : BitVec 8 := 0x02
def flgRst : BitVec 8 := 0x04
def flgPsh : BitVec 8 := 0x08
def flgAck : BitVec 8 := 0x10

/-- `TCP_FLG_ISSET(x, y)`. -/
def flgIsset (x y : BitVec 8) : Bool := (x &&& 0x3f) &&& y != 0

/-- `sizeof(struct tcp_hdr)`. -/
def tcpHdrSize : Nat := 20

/-- `struct pseudo_hdr` as the bytes the checksum reads; 6 is `IP_PROTOCOL_TCP`. -/
def pseudoHdr (src dst : BitVec 32) (len : BitVec 16) : List (BitVec 8) :=
  be32 src ++ (be32 dst ++ ([0, 6] ++ be16 len))

/-- The header fields in front of the checksum: ports, `seq`, `ack`, `off`, `flg`, `wnd`. -/
def tcpHdrHead (src dst : BitVec 16) (seq ack : BitVec 32) (off flg : BitVec 8) (wnd : BitVec 16) :
    List (BitVec 8) :=
  be16 src ++ (be16 dst ++ (be32 seq ++ (be32 ack ++ ([off, flg] ++ be16 wnd))))

/-- The arguments of one call of `tcp_output_segment`. -/
structure TcpSegOut where
  seq : BitVec 32
  ack : BitVec 32
  flg : BitVec 8
  wnd : BitVec 16
  data : List (BitVec 8)
  «local» : IpEndpoint
  foreign : IpEndpoint
  deriving DecidableEq, Repr

/-- `tcp_output_segment`: the bytes handed to `ip_output`.  `total` is a
`uint16_t`, and the checksum and the datagram cover the first `total` bytes.
The segment is built in `uint8_t buf[IP_PAYLOAD_SIZE_MAX]` on the stack, and
`memcpy(hdr + 1, data, len)` writes past it for a payload longer than
`ipPayloadSizeMax - tcpHdrSize` bytes: the model keeps the bytes the code
reads back and not what the copy overwrites, and `Defined` leaves such a call
out of the runs the results on reachable states are read over. -/
def tcpOutputSegment (o : TcpSegOut) : List (BitVec 8) :=
  let total : BitVec 16 := BitVec.ofNat 16 (o.data.length + tcpHdrSize)
  let head := tcpHdrHead o.local.port o.foreign.port o.seq o.ack 0x50 o.flg o.wnd
  let psum := ~~~(cksum16 (pseudoHdr o.local.addr o.foreign.addr total) 0)
  let sum := cksum16 ((head ++ be16 0 ++ be16 0 ++ o.data).take total.toNat) psum
  (head ++ be16 sum ++ be16 0 ++ o.data).take total.toNat

/-! ### Input -/

/-- `struct tcp_segment_info`; the urgent pointer it also holds is never read. -/
structure TcpSegmentInfo where
  seq : BitVec 32
  ack : BitVec 32
  len : BitVec 16
  wnd : BitVec 16
  deriving DecidableEq, Repr

/-- The arguments `tcp_input` passes to `tcp_segment_arrives`: the segment
information, the flags, the bytes from `hdr + hlen` on, the `size_t` length
`len - hlen`, and the endpoints. -/
structure TcpArrival where
  seg : TcpSegmentInfo
  flags : BitVec 8
  data : List (BitVec 8)
  len : Nat
  «local» : IpEndpoint
  foreign : IpEndpoint
  deriving DecidableEq, Repr

/-- `hlen = (hdr->off >> 4) << 2`. -/
def tcpHlen (data : List (BitVec 8)) : Nat := (data.getD 12 0).toNat / 16 * 4

/-- `len - hlen` as a `size_t`. -/
def payloadLen (data : List (BitVec 8)) : Nat :=
  (data.length + 2 ^ 64 - tcpHlen data) % 2 ^ 64

/-- `seg.len`: the payload length as a `uint16_t`, plus one for SYN and one for FIN. -/
def segLen (flg : BitVec 8) (len : Nat) : BitVec 16 :=
  let l := BitVec.ofNat 16 len
  let l := if flgIsset flg flgSyn then l + 1 else l
  if flgIsset flg flgFin then l + 1 else l

/-- `tcp_input`. -/
def tcpInput (data : List (BitVec 8)) (src dst : BitVec 32) : Option TcpArrival :=
  if data.length < tcpHdrSize then none
  else if cksum16 data (~~~(cksum16 (pseudoHdr src dst (BitVec.ofNat 16 data.length)) 0)) ≠ 0 then
    none
  else if src = ipAddrBroadcast ∨ dst = ipAddrBroadcast then none
  else
    some { seg := { seq := rd32At data 4, ack := rd32At data 8,
                    len := segLen (data.getD 13 0) (payloadLen data), wnd := rd16At data 14 }
           flags := data.getD 13 0
           data := data.drop (tcpHlen data)
           len := payloadLen data
           «local» := ⟨dst, rd16At data 2⟩
           foreign := ⟨src, rd16At data 0⟩ }

@[simp] theorem length_tcpHdrHead (src dst : BitVec 16) (seq ack : BitVec 32) (off flg : BitVec 8)
    (wnd : BitVec 16) : (tcpHdrHead src dst seq ack off flg wnd).length = 16 := rfl

section Fields

variable (src dst : BitVec 16) (seq ack : BitVec 32) (off flg : BitVec 8) (wnd : BitVec 16)
  (l : List (BitVec 8))

@[simp] theorem rd16At_tcpHdrHead_src : rd16At (tcpHdrHead src dst seq ack off flg wnd ++ l) 0 = src := by
  simp only [tcpHdrHead, List.append_assoc, rd16At_be16]

@[simp] theorem rd16At_tcpHdrHead_dst : rd16At (tcpHdrHead src dst seq ack off flg wnd ++ l) 2 = dst := by
  simp (disch := simp) only [tcpHdrHead, List.append_assoc, rd16At_append_of_le, length_be16,
    length_be32, List.length_cons, List.length_nil, Nat.reduceSub, Nat.reduceAdd, rd16At_be16]

@[simp] theorem rd32At_tcpHdrHead_seq : rd32At (tcpHdrHead src dst seq ack off flg wnd ++ l) 4 = seq := by
  simp (disch := simp) only [tcpHdrHead, List.append_assoc, rd32At_append_of_le, length_be16,
    length_be32, Nat.reduceSub, rd32At_be32]

@[simp] theorem rd32At_tcpHdrHead_ack : rd32At (tcpHdrHead src dst seq ack off flg wnd ++ l) 8 = ack := by
  simp (disch := simp) only [tcpHdrHead, List.append_assoc, rd32At_append_of_le, length_be16,
    length_be32, Nat.reduceSub, rd32At_be32]

@[simp] theorem getD_tcpHdrHead_off : (tcpHdrHead src dst seq ack off flg wnd ++ l).getD 12 0 = off := by
  simp [tcpHdrHead, be16, be32]

@[simp] theorem getD_tcpHdrHead_flg : (tcpHdrHead src dst seq ack off flg wnd ++ l).getD 13 0 = flg := by
  simp [tcpHdrHead, be16, be32]

@[simp] theorem rd16At_tcpHdrHead_wnd : rd16At (tcpHdrHead src dst seq ack off flg wnd ++ l) 14 = wnd := by
  simp (disch := simp) only [tcpHdrHead, List.append_assoc, rd16At_append_of_le, length_be16,
    length_be32, List.length_cons, List.length_nil, Nat.reduceSub, Nat.reduceAdd, rd16At_be16]

end Fields

/-- An emitted segment of at most 65535 bytes is its header, checksum, urgent
pointer and payload. -/
theorem tcpOutputSegment_eq (o : TcpSegOut) (h : o.data.length + tcpHdrSize ≤ 65535) :
    tcpOutputSegment o =
      tcpHdrHead o.local.port o.foreign.port o.seq o.ack 0x50 o.flg o.wnd ++
        (be16 (cksum16 (tcpHdrHead o.local.port o.foreign.port o.seq o.ack 0x50 o.flg o.wnd ++
          be16 0 ++ (be16 0 ++ o.data))
          (~~~(cksum16 (pseudoHdr o.local.addr o.foreign.addr
            (BitVec.ofNat 16 (o.data.length + tcpHdrSize))) 0))) ++ (be16 0 ++ o.data)) := by
  have ht : (BitVec.ofNat 16 (o.data.length + tcpHdrSize)).toNat = o.data.length + tcpHdrSize := by
    rw [BitVec.toNat_ofNat]; omega
  simp only [tcpOutputSegment, ht, List.append_assoc]
  rw [List.take_of_length_le (by simp [tcpHdrSize]; omega),
    List.take_of_length_le (by simp [tcpHdrSize]; omega)]

theorem length_tcpOutputSegment (o : TcpSegOut) (h : o.data.length + tcpHdrSize ≤ 65535) :
    (tcpOutputSegment o).length = o.data.length + tcpHdrSize := by
  rw [tcpOutputSegment_eq o h]
  simp [tcpHdrSize]
  omega

/-- **An emitted segment checks.**  Recomputing the checksum over the
pseudo-header, the header and the payload of an emitted segment gives zero. -/
theorem cksum16_tcpOutputSegment (o : TcpSegOut) (h : o.data.length + tcpHdrSize ≤ 65535) :
    cksum16 (tcpOutputSegment o) (~~~(cksum16 (pseudoHdr o.local.addr o.foreign.addr
      (BitVec.ofNat 16 (tcpOutputSegment o).length)) 0)) = 0 := by
  rw [length_tcpOutputSegment o h, tcpOutputSegment_eq o h, ← List.append_assoc]
  exact cksum16_fill _ _ _ (by simp)

/-- **What `tcp_input` accepts.**  A datagram reaches `tcp_segment_arrives`
exactly when it holds a whole header, the Internet checksum over the
pseudo-header followed by the segment is zero, and neither address is the
broadcast address.  The code folds the pseudo-header's sum into the segment's
(`cksum16_append`); the header length field is not checked. -/
theorem tcpInput_isSome_iff (data : List (BitVec 8)) (src dst : BitVec 32) :
    (tcpInput data src dst).isSome ↔ tcpHdrSize ≤ data.length ∧
      cksum16 (pseudoHdr src dst (BitVec.ofNat 16 data.length) ++ data) 0 = 0 ∧
      src ≠ ipAddrBroadcast ∧ dst ≠ ipAddrBroadcast := by
  rw [← cksum16_append _ _ _ (by simp [pseudoHdr])]
  unfold tcpInput
  split_ifs <;> simp_all
  tauto

/-- The call of `tcp_segment_arrives` that the segment `o` should cause at the
other end: the header fields, the flags and the payload, the endpoints swapped. -/
def TcpSegOut.received (o : TcpSegOut) : TcpArrival :=
  { seg := { seq := o.seq, ack := o.ack, len := segLen o.flg o.data.length, wnd := o.wnd }
    flags := o.flg, data := o.data, len := o.data.length, «local» := o.foreign, foreign := o.local }

@[simp] theorem TcpSegOut.received_seg (o : TcpSegOut) :
    o.received.seg = ⟨o.seq, o.ack, segLen o.flg o.data.length, o.wnd⟩ := rfl
@[simp] theorem TcpSegOut.received_flags (o : TcpSegOut) : o.received.flags = o.flg := rfl
@[simp] theorem TcpSegOut.received_data (o : TcpSegOut) : o.received.data = o.data := rfl
@[simp] theorem TcpSegOut.received_len (o : TcpSegOut) : o.received.len = o.data.length := rfl
@[simp] theorem TcpSegOut.received_local (o : TcpSegOut) : o.received.local = o.foreign := rfl
@[simp] theorem TcpSegOut.received_foreign (o : TcpSegOut) : o.received.foreign = o.local := rfl

/-- **What `tcp_input` makes of an emitted segment.**  The call of
`tcp_segment_arrives` the bytes of `tcp_output_segment` cause carries the header
fields, the flags and the payload back, with the endpoints swapped. -/
theorem tcpInput_tcpOutputSegment (o : TcpSegOut) (h : o.data.length + tcpHdrSize ≤ 65535)
    (hsrc : o.local.addr ≠ ipAddrBroadcast) (hdst : o.foreign.addr ≠ ipAddrBroadcast) :
    tcpInput (tcpOutputSegment o) o.local.addr o.foreign.addr = some o.received := by
  have hlen := length_tcpOutputSegment o h
  have hhlen : tcpHlen (tcpOutputSegment o) = tcpHdrSize := by
    rw [tcpOutputSegment_eq o h, tcpHlen, getD_tcpHdrHead_off]; rfl
  have hpay : payloadLen (tcpOutputSegment o) = o.data.length := by
    rw [payloadLen, hhlen, hlen]; simp only [tcpHdrSize] at h ⊢; omega
  rw [tcpInput, if_neg (by rw [hlen]; omega), if_neg (by simpa using cksum16_tcpOutputSegment o h),
    if_neg (by simp [hsrc, hdst]), hpay, hhlen, tcpOutputSegment_eq o h]
  simp only [getD_tcpHdrHead_flg, rd16At_tcpHdrHead_src, rd16At_tcpHdrHead_dst,
    rd32At_tcpHdrHead_seq, rd32At_tcpHdrHead_ack, rd16At_tcpHdrHead_wnd, Option.some.injEq,
    TcpSegOut.received, TcpArrival.mk.injEq, and_true, true_and]
  rw [← List.append_assoc, ← List.append_assoc, List.drop_left' (by simp [tcpHdrSize])]

theorem segLen_eq (flg : BitVec 8) (n : Nat) :
    segLen flg n = BitVec.ofNat 16 (n + (if flgIsset flg flgSyn then 1 else 0)
      + (if flgIsset flg flgFin then 1 else 0)) := by
  unfold segLen
  split <;> split <;> apply BitVec.eq_of_toNat_eq <;> simp

/-- **Round trip of an emitted segment.**  For every header field, flag byte
and payload that fits an IP datagram, and endpoints other than the broadcast
address, the bytes `tcp_output_segment` builds are `len + 20` long, the
Internet checksum over the pseudo-header (source and destination address, a
zero byte, protocol 6 and the TCP length `len + 20`) followed by them is zero,
as `tcp_input` checks it, and they reach `tcp_segment_arrives` with the
same `seq`, `ack`, `wnd` and flags, the payload, `seg.len = len + [SYN] + [FIN]`
and the endpoints swapped. -/
theorem emitted_segment_round_trip (seq ack : BitVec 32) (flg : BitVec 8) (wnd : BitVec 16)
    (data : List (BitVec 8)) («local» foreign : IpEndpoint)
    (h : data.length + tcpHdrSize ≤ ipPayloadSizeMax)
    (hl : «local».addr ≠ ipAddrBroadcast) (hf : foreign.addr ≠ ipAddrBroadcast) :
    (tcpOutputSegment ⟨seq, ack, flg, wnd, data, «local», foreign⟩).length = data.length + 20 ∧
    cksum16 (be32 «local».addr ++ be32 foreign.addr ++ [0, 6] ++ be16 (BitVec.ofNat 16 (data.length + 20)) ++
      tcpOutputSegment ⟨seq, ack, flg, wnd, data, «local», foreign⟩) 0 = 0 ∧
    tcpInput (tcpOutputSegment ⟨seq, ack, flg, wnd, data, «local», foreign⟩) «local».addr foreign.addr
      = some { seg := { seq := seq, ack := ack, wnd := wnd
                        len := BitVec.ofNat 16 (data.length + (if flgIsset flg flgSyn then 1 else 0)
                          + (if flgIsset flg flgFin then 1 else 0)) }
               flags := flg, data := data, len := data.length
               «local» := foreign, foreign := «local» } := by
  have h' : data.length + tcpHdrSize ≤ 65535 := le_trans h (by decide)
  refine ⟨length_tcpOutputSegment _ h', ?_, ?_⟩
  · have := cksum16_tcpOutputSegment ⟨seq, ack, flg, wnd, data, «local», foreign⟩ h'
    rw [length_tcpOutputSegment _ h', cksum16_append _ _ _ (by simp [pseudoHdr])] at this
    simpa only [pseudoHdr, List.append_assoc] using this
  · rw [tcpInput_tcpOutputSegment _ h' hl hf, TcpSegOut.received, segLen_eq]

theorem emitted_segment_round_trip_example :
    ([7, 8, 9] : List (BitVec 8)).length + tcpHdrSize ≤ ipPayloadSizeMax ∧
    (0x0a000002 : BitVec 32) ≠ ipAddrBroadcast ∧ (0x0a000005 : BitVec 32) ≠ ipAddrBroadcast ∧
    (tcpOutputSegment ⟨1000, 77, 0x12, 4096, [7, 8, 9], ⟨0x0a000002, 7⟩, ⟨0x0a000005, 40000⟩⟩).length
      = [7, 8, 9].length + 20 ∧
    cksum16 (be32 0x0a000002 ++ be32 0x0a000005 ++ [0, 6] ++ be16 (BitVec.ofNat 16 ([7, 8, 9].length + 20)) ++
      tcpOutputSegment ⟨1000, 77, 0x12, 4096, [7, 8, 9], ⟨0x0a000002, 7⟩, ⟨0x0a000005, 40000⟩⟩) 0 = 0 ∧
    tcpInput (tcpOutputSegment ⟨1000, 77, 0x12, 4096, [7, 8, 9], ⟨0x0a000002, 7⟩, ⟨0x0a000005, 40000⟩⟩)
        0x0a000002 0x0a000005
      = some { seg := { seq := 1000, ack := 77, wnd := 4096
                        len := BitVec.ofNat 16 ([7, 8, 9].length
                          + (if flgIsset 0x12 flgSyn then 1 else 0)
                          + (if flgIsset 0x12 flgFin then 1 else 0)) }
               flags := 0x12, data := [7, 8, 9], len := [7, 8, 9].length
               «local» := ⟨0x0a000005, 40000⟩, foreign := ⟨0x0a000002, 7⟩ } :=
  ⟨by decide, by decide, by decide,
    emitted_segment_round_trip 1000 77 0x12 4096 [7, 8, 9] ⟨0x0a000002, 7⟩ ⟨0x0a000005, 40000⟩
      (by decide) (by decide) (by decide)⟩

/-- `tcp_input` reads the header length from the offset field and checks it
against neither the header size nor the received length: a 20-byte segment
with offset field `0xf0` and a valid checksum reaches `tcp_segment_arrives` with
`hlen = 60`, no payload bytes, a `size_t` length of `2^64 - 40` and
`seg.len = 65496`. -/
theorem tcpInput_hlen_unchecked :
    tcpHlen [156, 64, 0, 80, 0, 0, 3, 232, 0, 0, 0, 0, 240, 16, 16, 0, 75, 85, 0, 0] = 60 ∧
    tcpInput [156, 64, 0, 80, 0, 0, 3, 232, 0, 0, 0, 0, 240, 16, 16, 0, 75, 85, 0, 0]
        0x0a000005 0x0a000002
      = some { seg := { seq := 1000, ack := 0, len := 65496, wnd := 4096 }, flags := flgAck
               data := [], len := 2 ^ 64 - 40
               «local» := ⟨0x0a000002, 80⟩, foreign := ⟨0x0a000005, 40000⟩ } := by
  simp only [tcpHlen, tcpInput, cksum16, fold16_eq]
  decide

end Tcp

end Microps
