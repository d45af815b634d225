import Microps.Tcp.Arrives

/-!
# Sequence-space comparisons

The spec (§4.6, §9) compares sequence numbers in 32-bit modular sequence space:
`a ≤ b` iff `(b - a) mod 2^32 < 2^31` (`seqLe`).  The code compares the raw
`uint32_t` values with `<` and `<=`.  `specAcceptable`, `specHandshake` and
`specEstablishedAck` are the decisions of §4.6 written with the spec's
comparisons, to be set against `segAcceptable`, `synReceivedAckOk` and
`establishedAck`.

* `acceptable_at_wrap`: by the sequence-space test a segment right after the
  wrap point is inside the window, and the code rejects it; shifted away from
  the wrap point, the code accepts it.
* `decisions_eq_spec_of_noWrap`: while the values compared lie, for each of the
  two sequence spaces, the peer's and the local one, in a half of it that does
  not cross `2^32` (`NoWrap`), the two agree.
-/

namespace Microps.Tcp

/-- `a ≤ b` in sequence space. -/
def seqLe (a b : BitVec 32) : Bool := (b - a).toNat < 2 ^ 31

/-- `a < b` in sequence space. -/
def seqLt (a b : BitVec 32) : Bool := seqLe a b && a != b

/-- §4.6's acceptability table: a segment is acceptable when its head or its
tail lies in `[rcv.nxt, rcv.nxt + rcv.wnd)`. -/
def specAcceptable (rcv : TcpRcv) (seg : TcpSegmentInfo) : Bool :=
  let inWindow (x : BitVec 32) := seqLe rcv.nxt x && seqLt x (rcv.nxt + rcv.wnd.setWidth 32)
  if seg.len = 0 then
    if rcv.wnd = 0 then decide (seg.seq = rcv.nxt) else inWindow seg.seq
  else if rcv.wnd = 0 then false
  else inWindow seg.seq || inWindow (seg.seq + seg.len.setWidth 32 - 1)

/-- §4.6, SYN_RECEIVED: `snd.una ≤ seg.ack ≤ snd.nxt`. -/
def specHandshake (snd : TcpSnd) (seg : TcpSegmentInfo) : Bool :=
  seqLe snd.una seg.ack && seqLe seg.ack snd.nxt

/-- §4.6, ESTABLISHED: advance `snd.una` (and update the window), ignore a
duplicate, or refuse an acknowledgement of unsent data (`none`). -/
def specEstablishedAck (snd : TcpSnd) (seg : TcpSegmentInfo) : Option TcpSnd :=
  if seqLt snd.una seg.ack && seqLe seg.ack snd.nxt then
    if seqLt snd.wl1 seg.seq || (decide (snd.wl1 = seg.seq) && seqLe snd.wl2 seg.ack) then
      some { snd with una := seg.ack, wnd := seg.wnd, wl1 := seg.seq, wl2 := seg.ack }
    else some { snd with una := seg.ack }
  else if seqLt seg.ack snd.una then some snd
  else if seqLt snd.nxt seg.ack then none
  else some snd

/-- **The code decides on raw values.**  With `rcv.nxt = 2^32 - 10` and a window
of 100, sequence number 5 is ten octets into the window; the code rejects it,
and accepts the same segment once both are shifted by 10. -/
theorem acceptable_at_wrap :
    specAcceptable ⟨0xfffffff6, 100⟩ ⟨5, 0, 0, 0⟩ = true ∧
    segAcceptable ⟨0xfffffff6, 100⟩ ⟨5, 0, 0, 0⟩ = false ∧
    segAcceptable ⟨0xfffffff6 + 10, 100⟩ ⟨5 + 10, 0, 0, 0⟩ = true := by
  decide

/-! ### Away from the wrap point -/

/-- `v` lies in `[b, b + 2^31)`. -/
def InHalf (b v : Nat) : Prop := b ≤ v ∧ v < b + 2 ^ 31

/-- The peer's sequence space: `rcv.nxt`, the window's end taken without
wrapping, `seg.seq`, the segment's end and `snd.wl1` lie in `[p, p + 2^31)`,
below `2^32`. -/
def PeerHalf (p : Nat) (rcv : TcpRcv) (wl1 : BitVec 32) (seg : TcpSegmentInfo) : Prop :=
  p + 2 ^ 31 ≤ 2 ^ 32 ∧ InHalf p rcv.nxt.toNat ∧ InHalf p (rcv.nxt.toNat + rcv.wnd.toNat) ∧
    InHalf p seg.seq.toNat ∧ InHalf p (seg.seq.toNat + seg.len.toNat) ∧ InHalf p wl1.toNat

/-- The local sequence space: `snd.una`, `snd.nxt`, `seg.ack` and `snd.wl2` lie
in `[l, l + 2^31)`. -/
def LocalHalf (l : Nat) (snd : TcpSnd) (seg : TcpSegmentInfo) : Prop :=
  InHalf l snd.una.toNat ∧ InHalf l snd.nxt.toNat ∧ InHalf l seg.ack.toNat ∧ InHalf l snd.wl2.toNat

/-- Every sequence value the decisions compare lies in the half interval of its
own sequence space: the peer's from `p`, the local one from `l`. -/
def NoWrap (p l : Nat) (rcv : TcpRcv) (snd : TcpSnd) (seg : TcpSegmentInfo) : Prop :=
  PeerHalf p rcv snd.wl1 seg ∧ LocalHalf l snd seg

section Half

variable {b : Nat} {x y : BitVec 32}

theorem seqLe_eq (hx : InHalf b x.toNat) (hy : InHalf b y.toNat) :
    seqLe x y = decide (x ≤ y) := by
  unfold seqLe InHalf at *
  rw [Bool.eq_iff_iff]
  simp only [decide_eq_true_eq, BitVec.le_def, BitVec.toNat_sub]
  omega

theorem seqLt_eq (hx : InHalf b x.toNat) (hy : InHalf b y.toNat) :
    seqLt x y = decide (x < y) := by
  rw [seqLt, seqLe_eq hx hy, Bool.eq_iff_iff]
  simp only [Bool.and_eq_true, decide_eq_true_eq, bne_iff_ne, ne_eq, BitVec.le_def, BitVec.lt_def,
    BitVec.toNat_eq]
  omega

theorem toNat_add_setWidth {w : BitVec 16} (h : x.toNat + w.toNat < 2 ^ 32) :
    (x + w.setWidth 32).toNat = x.toNat + w.toNat := by
  rw [BitVec.toNat_add, BitVec.toNat_setWidth, Nat.mod_eq_of_lt (by omega : w.toNat < 2 ^ 32),
    Nat.mod_eq_of_lt h]

end Half

theorem segAcceptable_eq_spec {p : Nat} {rcv : TcpRcv} {wl1 : BitVec 32} {seg : TcpSegmentInfo}
    (h : PeerHalf p rcv wl1 seg) : segAcceptable rcv seg = specAcceptable rcv seg := by
  obtain ⟨hb, hn, he, hs, ht, -⟩ := h
  have hw : (rcv.nxt + rcv.wnd.setWidth 32).toNat = rcv.nxt.toNat + rcv.wnd.toNat :=
    toNat_add_setWidth (by unfold InHalf at he; omega)
  have he' : InHalf p (rcv.nxt + rcv.wnd.setWidth 32).toNat := hw ▸ he
  unfold segAcceptable specAcceptable
  dsimp only
  split
  · split
    · rfl
    · rw [seqLe_eq hn hs, seqLt_eq hs he', Bool.decide_and]
  · split
    · rfl
    · have hl : seg.len.toNat ≠ 0 := fun h0 => by simp_all [BitVec.toNat_eq]
      have htl : (seg.seq + seg.len.setWidth 32 - 1).toNat = seg.seq.toNat + seg.len.toNat - 1 := by
        rw [BitVec.toNat_sub, toNat_add_setWidth (by unfold InHalf at ht; omega),
          show (1 : BitVec 32).toNat = 1 from rfl]
        unfold InHalf at ht
        omega
      have ht' : InHalf p (seg.seq + seg.len.setWidth 32 - 1).toNat := by
        rw [htl]; unfold InHalf at hs ht ⊢; omega
      rw [seqLe_eq hn hs, seqLt_eq hs he', seqLe_eq hn ht', seqLt_eq ht' he', Bool.decide_or,
        Bool.decide_and, Bool.decide_and]

theorem synReceivedAckOk_eq_spec {l : Nat} {snd : TcpSnd} {seg : TcpSegmentInfo}
    (h : LocalHalf l snd seg) : synReceivedAckOk snd seg = specHandshake snd seg := by
  obtain ⟨hu, hn, ha, -⟩ := h
  simp [synReceivedAckOk, specHandshake, seqLe_eq hu ha, seqLe_eq ha hn]

theorem establishedAck_eq_spec {p l : Nat} {rcv : TcpRcv} {snd : TcpSnd} {seg : TcpSegmentInfo}
    (h : NoWrap p l rcv snd seg) : establishedAck snd seg = specEstablishedAck snd seg := by
  obtain ⟨⟨-, -, -, hs, -, h1⟩, hu, hn, ha, h2⟩ := h
  simp [establishedAck, specEstablishedAck, seqLe_eq hu ha, seqLt_eq hu ha, seqLe_eq ha hn,
    seqLt_eq ha hu, seqLt_eq hn ha, seqLt_eq h1 hs, seqLe_eq h2 ha]

/-- **Away from the wrap point the code decides as the spec.**  When every
sequence value compared lies in the half interval of its own sequence space,
`[p, p + 2^31)` below `2^32` for the peer's (`rcv.nxt`, `seg.seq`, `snd.wl1`)
and `[l, l + 2^31)` for the local one (`snd.una`, `snd.nxt`, `seg.ack`,
`snd.wl2`), the acceptability test, the handshake ACK check and the
ESTABLISHED ACK processing (the new `snd.una`, `snd.wnd`, `snd.wl1`,
`snd.wl2`, or the reply to an ACK of unsent data) are those of §4.6 with
sequence-space comparisons. -/
theorem decisions_eq_spec_of_noWrap (p l : Nat) (rcv : TcpRcv) (snd : TcpSnd) (seg : TcpSegmentInfo)
    (h : NoWrap p l rcv snd seg) :
    segAcceptable rcv seg = specAcceptable rcv seg ∧ synReceivedAckOk snd seg = specHandshake snd seg ∧
      establishedAck snd seg = specEstablishedAck snd seg :=
  ⟨segAcceptable_eq_spec h.1, synReceivedAckOk_eq_spec h.2, establishedAck_eq_spec h⟩

/-- The peer's values in the upper half and the local ones in the lower half. -/
theorem decisions_eq_spec_of_noWrap_example :
    NoWrap (2 ^ 31) 0 ⟨3000000001, 65535⟩ ⟨505, 501, 4, 3000000001, 501⟩ ⟨3000000001, 503, 0, 4096⟩ ∧
    segAcceptable ⟨3000000001, 65535⟩ ⟨3000000001, 503, 0, 4096⟩ =
      specAcceptable ⟨3000000001, 65535⟩ ⟨3000000001, 503, 0, 4096⟩ ∧
    synReceivedAckOk ⟨505, 501, 4, 3000000001, 501⟩ ⟨3000000001, 503, 0, 4096⟩ =
      specHandshake ⟨505, 501, 4, 3000000001, 501⟩ ⟨3000000001, 503, 0, 4096⟩ ∧
    establishedAck ⟨505, 501, 4, 3000000001, 501⟩ ⟨3000000001, 503, 0, 4096⟩ =
      specEstablishedAck ⟨505, 501, 4, 3000000001, 501⟩ ⟨3000000001, 503, 0, 4096⟩ :=
  have h : NoWrap (2 ^ 31) 0 ⟨3000000001, 65535⟩ ⟨505, 501, 4, 3000000001, 501⟩ ⟨3000000001, 503, 0, 4096⟩ :=
    by unfold NoWrap PeerHalf LocalHalf InHalf; decide
  ⟨h, decisions_eq_spec_of_noWrap _ _ _ _ _ h⟩

end Microps.Tcp
