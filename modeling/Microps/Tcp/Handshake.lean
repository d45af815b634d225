import Microps.Tcp.Demux
import Microps.Tcp.SeqSpace
import Microps.Tcp.Sleep

/-!
# The passive open and the three-way handshake

A thread calls `tcp_open_rfc793` in passive mode on the local endpoint `me`; a
peer sends SYN with its initial sequence number `irs`, `random()` gives `iss`,
and the peer's ACK acknowledges the SYN|ACK.  This file runs the handshake
from any state reachable with defined behaviour in which the passive open gets
a slot that no other PCB competes with for `me`.

`handshake_establishes` is the protocol working: the opener returns the
slot's handle, the PCB is ESTABLISHED with the sequence variables RFC 793
gives it, the stack has emitted exactly one segment, the SYN|ACK, and every
other slot and thread is as it was.  It needs two conditions the code's plain
32-bit comparisons bring in: `rcv.nxt + rcv.wnd = irs + 1 + 65535` must not
wrap, or the ACK is not acceptable, and `snd.una = iss` must be below
`snd.nxt = iss + 1`, or its ACK check fails.  `handshake_stalls` is the other
side: under either wrap the peer's ACK is answered but the PCB stays
SYN_RECEIVED and the opener has nothing pending, so `tcp_open_rfc793` does not
return although the peer has completed the handshake.  `random()` returns less
than `2^31`, so in the code the second wrap cannot occur; the first occurs for
every `irs` from `2^32 - 65536` to `2^32 - 2`.

The ACK that completes the handshake also sets the peer's window, compared
against `snd.wl1 = snd.wl2 = 0`.  For every `irs + 1 ≥ 2^31` the code takes
the window and §4.6's sequence-space comparison does not
(`establishedAck_handshake_ne_spec`).
-/

namespace Microps.Tcp

variable {n : Nat} {route : BitVec 32 → Option (BitVec 16)}

open Sys

/-! ### The two arrivals -/

/-- What the SYN of `peer` leaves in a zeroed slot set LISTEN on `me`. -/
def synReceivedPcb (me peer : IpEndpoint) (irs iss : BitVec 32) : TcpPcb :=
  { TcpPcb.zero with state := .synReceived, «local» := me, foreign := peer
                     snd := ⟨iss + 1, iss, 0, 0, 0⟩, iss := iss
                     rcv := ⟨irs + 1, BitVec.ofNat 16 bufSize⟩, irs := irs }

theorem arrivesListen_syn (me peer : IpEndpoint) (irs iss : BitVec 32) (wnd : BitVec 16) :
    tcpSegmentArrivesPcb { TcpPcb.zero with «local» := me, state := .listen }
        (⟨irs, 0, flgSyn, wnd, [], peer, me⟩ : TcpSegOut).received iss =
      ⟨synReceivedPcb me peer irs iss,
        some ⟨iss, irs + 1, flgSyn ||| flgAck, BitVec.ofNat 16 bufSize, [], me, peer⟩, false, false⟩ := by
  have hr : flgIsset flgSyn flgRst = false := by decide
  have ha : flgIsset flgSyn flgAck = false := by decide
  have hs : flgIsset flgSyn flgSyn = true := by decide
  have hsa : flgIsset (flgSyn ||| flgAck) flgSyn = true := by decide
  simp [tcpSegmentArrivesPcb, arrivesListen, hr, ha, hs, hsa, tcpOutput, synReceivedPcb, TcpPcb.zero]

/-- The sequence check of the handshake's ACK: `rcv.nxt <= seq < rcv.nxt + rcv.wnd`
with `seq = rcv.nxt` holds unless the right end wraps. -/
theorem segAcceptable_handshake (x ack : BitVec 32) (w : BitVec 16) :
    segAcceptable ⟨x, BitVec.ofNat 16 bufSize⟩ ⟨x, ack, 0, w⟩ = decide (x.toNat + 65535 < 2 ^ 32) := by
  have hx := x.isLt
  simp only [segAcceptable, bufSize, if_true]
  simp [BitVec.lt_def, BitVec.toNat_add]
  omega

/-- The ACK check of SYN_RECEIVED on the handshake's ACK: `iss <= iss + 1`. -/
theorem synReceivedAckOk_handshake (iss seq : BitVec 32) (len w : BitVec 16) :
    synReceivedAckOk ⟨iss + 1, iss, 0, 0, 0⟩ ⟨seq, iss + 1, len, w⟩ = decide (iss.toNat + 1 < 2 ^ 32) := by
  have hx := iss.isLt
  simp [synReceivedAckOk, BitVec.le_def, BitVec.toNat_add]
  omega

theorem establishedAck_handshake (irs iss : BitVec 32) (wnd : BitVec 16) (h : iss.toNat + 1 < 2 ^ 32) :
    establishedAck ⟨iss + 1, iss, 0, 0, 0⟩ ⟨irs + 1, iss + 1, 0, wnd⟩ =
      some ⟨iss + 1, iss + 1, wnd, irs + 1, iss + 1⟩ := by
  have hlt : iss < iss + 1 := by
    rw [BitVec.lt_def, BitVec.toNat_add]; simp; omega
  have hw : (0 : BitVec 32) < irs + 1 ∨ ((0 : BitVec 32) = irs + 1 ∧ (0 : BitVec 32) ≤ iss + 1) := by
    rw [BitVec.lt_def, BitVec.le_def]
    by_cases h0 : (irs + 1).toNat = 0
    · exact .inr ⟨BitVec.eq_of_toNat_eq (by rw [h0]; rfl), by simp⟩
    · exact .inl (Nat.pos_of_ne_zero h0)
  simp only [establishedAck]
  rw [if_pos ⟨hlt, BitVec.le_refl _⟩, if_pos hw]

/-- **The spec does not take the handshake ACK's window in the upper half.**
The SYN_RECEIVED PCB holds `snd.wl1 = snd.wl2 = 0`, and once `irs + 1 ≥ 2^31`
no half of the peer's sequence space holds both `snd.wl1` and `seg.seq`: the
code's raw `0 < seg.seq` takes the ACK's window, `seqLt 0 seg.seq` does not,
and the two leave different `snd`. -/
theorem establishedAck_handshake_ne_spec (irs iss : BitVec 32) (wnd : BitVec 16) (h : iss.toNat + 1 < 2 ^ 32)
    (hr : 2 ^ 31 ≤ (irs + 1).toNat) :
    establishedAck ⟨iss + 1, iss, 0, 0, 0⟩ ⟨irs + 1, iss + 1, 0, wnd⟩ ≠
      specEstablishedAck ⟨iss + 1, iss, 0, 0, 0⟩ ⟨irs + 1, iss + 1, 0, wnd⟩ := by
  have hne : (0 : BitVec 32) ≠ irs + 1 := fun h0 => by rw [← h0] at hr; simp at hr
  have hu : seqLt iss (iss + 1) = true := by simp [seqLt, seqLe]
  have ha : seqLe (iss + 1) (iss + 1) = true := by simp [seqLe]
  have hw : seqLt 0 (irs + 1) = false := by
    have hs : irs + 1 - 0 = irs + 1 := BitVec.sub_zero _
    rw [seqLt, seqLe, hs, decide_eq_false (by omega), Bool.false_and]
  rw [establishedAck_handshake irs iss wnd h]
  simp only [specEstablishedAck, hu, ha, hw, hne, Bool.and_self, if_true, decide_False, Bool.false_and,
    Bool.false_or, Bool.false_eq_true, if_false, ne_eq, Option.some.injEq]
  exact fun he => hne (congrArg TcpSnd.wl1 he).symm

/-- The ACK of the handshake brings the PCB to ESTABLISHED and wakes its sleepers. -/
theorem arrives_handshakeAck (me peer : IpEndpoint) (irs iss : BitVec 32) (wnd : BitVec 16)
    (hw : (irs + 1).toNat + 65535 < 2 ^ 32) (hi : iss.toNat + 1 < 2 ^ 32) :
    tcpSegmentArrivesPcb (synReceivedPcb me peer irs iss)
        (⟨irs + 1, iss + 1, flgAck, wnd, [], peer, me⟩ : TcpSegOut).received 0 =
      ⟨{ synReceivedPcb me peer irs iss with
          state := .established, snd := ⟨iss + 1, iss + 1, wnd, irs + 1, iss + 1⟩ }, none, true, false⟩ := by
  have hl : segLen flgAck 0 = 0 := by decide
  have ha : flgIsset flgAck flgAck = true := by decide
  have hacc := segAcceptable_handshake (irs + 1) (iss + 1) wnd
  have hok := synReceivedAckOk_handshake iss (irs + 1) 0 wnd
  have hest := establishedAck_handshake irs iss wnd hi
  simp only [synReceivedPcb] at hacc hok hest ⊢
  simp only [tcpSegmentArrivesPcb, synReceivedPcb, arrivesSynchronized, TcpSegOut.received, hl, hacc, hw,
    decide_True, Bool.not_true, Bool.false_eq_true, if_false, ha, processAck, hok, hi, and_false, hest,
    processText, List.length_nil, if_true, true_and]

/-- Under a wrap the ACK of the handshake leaves the PCB and wakes no one. -/
theorem arrives_handshakeAck_refused (me peer : IpEndpoint) (irs iss : BitVec 32) (wnd : BitVec 16)
    (hn : ¬((irs + 1).toNat + 65535 < 2 ^ 32 ∧ iss.toNat + 1 < 2 ^ 32)) :
    (tcpSegmentArrivesPcb (synReceivedPcb me peer irs iss)
        (⟨irs + 1, iss + 1, flgAck, wnd, [], peer, me⟩ : TcpSegOut).received 0).pcb =
        synReceivedPcb me peer irs iss ∧
      (tcpSegmentArrivesPcb (synReceivedPcb me peer irs iss)
        (⟨irs + 1, iss + 1, flgAck, wnd, [], peer, me⟩ : TcpSegOut).received 0).wakeup = false := by
  have hl : segLen flgAck 0 = 0 := by decide
  have ha : flgIsset flgAck flgAck = true := by decide
  have hacc := segAcceptable_handshake (irs + 1) (iss + 1) wnd
  have hok := synReceivedAckOk_handshake iss (irs + 1) 0 wnd
  simp only [synReceivedPcb] at hacc hok ⊢
  by_cases hw : (irs + 1).toNat + 65535 < 2 ^ 32
  · have hi : ¬iss.toNat + 1 < 2 ^ 32 := fun hi => hn ⟨hw, hi⟩
    simp only [tcpSegmentArrivesPcb, arrivesSynchronized, TcpSegOut.received, List.length_nil, hl, hacc, hw,
      decide_True, Bool.not_true, Bool.false_eq_true, if_false, ha, processAck, hok, hi, decide_False,
      Bool.not_false, and_self, if_true]
  · simp only [tcpSegmentArrivesPcb, arrivesSynchronized, TcpSegOut.received, List.length_nil, hl, hacc, hw,
      decide_False, Bool.not_false, if_true, and_self]

/-! ### The runs -/

theorem openCall_passive {s : Sys n} {t : Fin n} {i : Slot} (ha : tcpPcbAlloc s.pcbs = some i)
    (l : IpEndpoint) :
    openCall s t l none false =
      (s.setPcb i { s.pcbs i with «local» := l, state := .listen }).setThr t (.openWait i .listen .none) := by
  simp [openCall, ha, Sys.setPcb]

theorem lockFree_of_thr {s s' : Sys n} {t : Fin n} {p : Pc} (hl : s.lockFree = true)
    (h : s'.thr = Function.update s.thr t p) (hp : p.inLoop = false) : s'.lockFree = true :=
  decide_eq_true fun u => by
    rw [h]
    by_cases hu : u = t
    · rw [hu, Function.update_same, hp]
    · rw [Function.update_noteq hu]; exact of_decide_eq_true hl u

theorem lockFree_post {s : Sys n} {i : Slot} {w : Wake} (h : s.lockFree = true) : (s.post i w).lockFree = true :=
  decide_eq_true fun u => by
    simp only [post_thr]
    split
    · rw [Pc.inLoop_post]; exact of_decide_eq_true h u
    · exact of_decide_eq_true h u

/-- A segment from `peer` to `me` goes to the SYN_RECEIVED PCB on slot `i` when
no other PCB's local endpoint matches `me`. -/
theorem arrivesSlot_synReceived {pcbs : Slot → TcpPcb} {i : Slot} {me peer : IpEndpoint}
    (hsel : ∀ j, j ≠ i → ¬LocalMatch (pcbs j) me) (irs iss seq ack : BitVec 32) (flg : BitVec 8)
    (wnd : BitVec 16) (data : List (BitVec 8)) :
    arrivesSlot (Function.update pcbs i (synReceivedPcb me peer irs iss))
      (⟨seq, ack, flg, wnd, data, peer, me⟩ : TcpSegOut).received = some i := by
  have hs : tcpPcbSelect (Function.update pcbs i (synReceivedPcb me peer irs iss)) me (some peer) = some i := by
    refine tcpPcbSelect_only ?_ fun j hj => by simpa [Function.update_noteq hj] using hsel j hj
    rw [Function.update_same]
    exact .inl ⟨⟨.inr rfl, rfl⟩, rfl⟩
  rw [arrivesSlot, TcpSegOut.received_local, TcpSegOut.received_foreign, hs]
  simp [synReceivedPcb]

section Handshake

variable {s : Sys n} {t : Fin n} {i : Slot} {me peer : IpEndpoint} (irs iss : BitVec 32) (wnd : BitVec 16)
  (hr : Reachable route Defined s) (hl : s.lockFree = true) (ht : s.thr t = .idle)
  (ha : tcpPcbAlloc s.pcbs = some i) (hsel : ∀ j, j ≠ i → ¬LocalMatch (s.pcbs j) me)
  (hme : me.addr ≠ ipAddrBroadcast) (hpeer : peer.addr ≠ ipAddrBroadcast)
include hr hl ht ha hsel hme hpeer

/-- The passive open and the SYN: the slot holds `synReceivedPcb`, the opener
sleeps on it with nothing pending, and the SYN|ACK has left. -/
theorem run_open_syn :
    ∃ s₂, run route s [.call t (.openRfc793 me none false) true,
        .segment ⟨irs, 0, flgSyn, wnd, [], peer, me⟩ iss true] = some s₂ ∧
      s₂.pcbs = Function.update s.pcbs i (synReceivedPcb me peer irs iss) ∧
      s₂.thr = Function.update s.thr t (.openWait i .listen .none) ∧
      s₂.out = s.out ++ [.call t (.openRfc793 me none false),
        .seg (some i) none ⟨iss, irs + 1, flgSyn ||| flgAck, BitVec.ofNat 16 bufSize, [], me, peer⟩ true] := by
  have hz := zero_of_free hr i (tcpPcbAlloc_some ha)
  let L : TcpPcb := { TcpPcb.zero with «local» := me, state := .listen }
  let s₁ := ((s.emit (.call t (.openRfc793 me none false))).setPcb i L).setThr t (.openWait i .listen .none)
  have h₁ : step route s (.call t (.openRfc793 me none false) true) = some s₁ := by
    simp only [step, hl, ht, and_self, if_true, callStep]
    rw [openCall_passive (s := s.emit _) ha, emit_pcbs, hz]
  have hp₁ : s₁.pcbs = Function.update s.pcbs i L := rfl
  have hsel₁ : arrivesSlot s₁.pcbs (⟨irs, 0, flgSyn, wnd, [], peer, me⟩ : TcpSegOut).received = some i := by
    have hs : tcpPcbSelect s₁.pcbs me (some peer) = some i := by
      rw [hp₁]
      refine tcpPcbSelect_only ?_ fun j hj => by simpa [Function.update_noteq hj] using hsel j hj
      rw [Function.update_same]
      exact .inr ⟨⟨.inr rfl, rfl⟩, rfl, rfl⟩
    rw [arrivesSlot, TcpSegOut.received_local, TcpSegOut.received_foreign, hs]
    simp [hp₁, L]
  have hA : tcpSegmentArrivesPcb L (⟨irs, 0, flgSyn, wnd, [], peer, me⟩ : TcpSegOut).received iss = _ :=
    arrivesListen_syn me peer irs iss wnd
  have hi₁ : s₁.pcbs i = L := by rw [hp₁, Function.update_same]
  have h₂ : step route s₁ (.segment ⟨irs, 0, flgSyn, wnd, [], peer, me⟩ iss true) = _ :=
    step_segment iss true (lockFree_of_thr hl rfl rfl) (by simp [tcpHdrSize]) hpeer hme
  simp only [arrive, hsel₁, hi₁, hA, Bool.false_eq_true, if_false] at h₂
  exact ⟨_, (run_cons_of_step _ h₁).trans ((run_cons_of_step _ h₂).trans rfl), by simp [s₁], by simp [s₁],
    by simp [s₁]⟩

/-- **The handshake establishes the connection.**  From a state reachable with
defined behaviour in which thread `t` is idle, `tcp_pcb_alloc` gives slot `i` and no other PCB's
local endpoint matches `me`: a passive open on `me`, a SYN from `peer` with
initial sequence number `irs` (`random()` giving `iss`) and the peer's ACK of
the SYN|ACK make `tcp_open_rfc793` return `i`, provided neither
`irs + 1 + 65535` nor `iss + 1` wraps.  The slot is then ESTABLISHED with the
endpoints, the initial sequence numbers, `snd.una = snd.nxt = iss + 1`, the
peer's window taken from the ACK (`wl1 = irs + 1`, `wl2 = iss + 1`) and the
whole receive window; the only segment emitted is the SYN|ACK, and every
other slot and every thread is as it was. -/
theorem handshake_establishes (hw : (irs + 1).toNat + 65535 < 2 ^ 32) (hi : iss.toNat + 1 < 2 ^ 32) :
    ∃ s', run route s (handshake t me peer irs iss wnd ++ [.run t true]) = some s' ∧
      s'.pcbs = Function.update s.pcbs i
        { TcpPcb.zero with state := .established, «local» := me, foreign := peer
                           snd := ⟨iss + 1, iss + 1, wnd, irs + 1, iss + 1⟩, iss := iss
                           rcv := ⟨irs + 1, BitVec.ofNat 16 bufSize⟩, irs := irs } ∧
      s'.thr = s.thr ∧
      s'.out = s.out ++ [.call t (.openRfc793 me none false),
        .seg (some i) none ⟨iss, irs + 1, flgSyn ||| flgAck, BitVec.ofNat 16 bufSize, [], me, peer⟩ true,
        .ret t i []] := by
  have hsi := sleepInv_of_reachable hr
  have hloop : ∀ u, (s.thr u).inLoop = false := of_decide_eq_true hl
  have hnw : ∀ u, (s.thr u).waitsOn ≠ some i := fun u hu =>
    (hsi.thr u).state_ne_free (hloop u) (by rw [Pc.slot_eq_waitsOn (hloop u)]; exact hu) (tcpPcbAlloc_some ha)
  obtain ⟨s₂, h₂, hp₂, ht₂, ho₂⟩ := run_open_syn irs iss wnd hr hl ht ha hsel hme hpeer
  have h₃ : step route s₂ (.segment ⟨irs + 1, iss + 1, flgAck, wnd, [], peer, me⟩ 0 true) = _ :=
    step_segment 0 true (lockFree_of_thr hl ht₂ rfl) (by simp [tcpHdrSize]) hpeer hme
  have hi₂ : s₂.pcbs i = synReceivedPcb me peer irs iss := by rw [hp₂, Function.update_same]
  have hsel₂ : arrivesSlot s₂.pcbs (⟨irs + 1, iss + 1, flgAck, wnd, [], peer, me⟩ : TcpSegOut).received = some i := by
    rw [hp₂]; exact arrivesSlot_synReceived hsel irs iss _ _ _ wnd []
  simp only [arrive, hsel₂, hi₂, arrives_handshakeAck me peer irs iss wnd hw hi, if_true] at h₃
  let s₃ := (s₂.setPcb i { synReceivedPcb me peer irs iss with
    state := .established, snd := ⟨iss + 1, iss + 1, wnd, irs + 1, iss + 1⟩ }).post i .wakeup
  have ht₃ : s₃.thr t = .openWait i .listen .wakeup := by simp [s₃, ht₂, Pc.waitsOn, Pc.post, Wake.post]
  have h₄ : step route s₃ (.run t true) = some ((s₃.setThr t .idle).ret t i []) := by
    have he : ((s₃.setThr t .idle).pcbs i).state = .established := by simp [s₃]
    have hl₃ : s₃.lockFree = true := lockFree_post (lockFree_of_thr hl ht₂ rfl)
    simp only [step, runStep, ht₃, hl₃, ne_eq, reduceCtorEq, not_false_eq_true, and_self, if_true, if_false,
      openResume, openCheck, he]
  refine ⟨(s₃.setThr t .idle).ret t i [], ?_, by simp [s₃, hp₂, synReceivedPcb], ?_, by simp [s₃, ho₂]⟩
  · rw [show handshake t me peer irs iss wnd ++ [.run t true] =
      [.call t (.openRfc793 me none false) true, .segment ⟨irs, 0, flgSyn, wnd, [], peer, me⟩ iss true] ++
        [.segment ⟨irs + 1, iss + 1, flgAck, wnd, [], peer, me⟩ 0 true, .run t true] from rfl,
      run_append_of_some h₂]
    exact (run_cons_of_step _ h₃).trans ((run_cons_of_step _ h₄).trans rfl)
  · funext u
    by_cases hu : u = t
    · subst hu; simp [ht]
    · simp [s₃, ht₂, Function.update_noteq hu, hnw u]

/-- **The handshake stalls at a wrap.**  Under the same conditions, if
`irs + 1 + 65535` or `iss + 1` wraps, the peer's ACK of the SYN|ACK is answered
(by an ACK, or by a reset) but leaves the PCB SYN_RECEIVED and posts no wakeup:
the opener still sleeps with nothing pending, so no step of its own can follow
and `tcp_open_rfc793` does not return, although the peer has completed the
handshake.  The model lets `iss` be any 32-bit value; `random()` returns less
than `2^31`, so in the code `iss + 1` never wraps and only the wrap of
`irs + 1 + 65535`, for a peer's `irs` from `2^32 - 65536` to `2^32 - 2`,
stalls the handshake. -/
theorem handshake_stalls (hn : ¬((irs + 1).toNat + 65535 < 2 ^ 32 ∧ iss.toNat + 1 < 2 ^ 32)) :
    ∃ s', run route s (handshake t me peer irs iss wnd) = some s' ∧
      (s'.pcbs i).state = .synReceived ∧ s'.thr t = .openWait i .listen .none ∧
      ∀ ok, step route s' (.run t ok) = none := by
  obtain ⟨s₂, h₂, hp₂, ht₂, -⟩ := run_open_syn irs iss wnd hr hl ht ha hsel hme hpeer
  have hi₂ : s₂.pcbs i = synReceivedPcb me peer irs iss := by rw [hp₂, Function.update_same]
  have hsel₂ : arrivesSlot s₂.pcbs (⟨irs + 1, iss + 1, flgAck, wnd, [], peer, me⟩ : TcpSegOut).received = some i := by
    rw [hp₂]; exact arrivesSlot_synReceived hsel irs iss _ _ _ wnd []
  obtain ⟨hpcb, hwk⟩ := arrives_handshakeAck_refused me peer irs iss wnd hn
  have h₃ : step route s₂ (.segment ⟨irs + 1, iss + 1, flgAck, wnd, [], peer, me⟩ 0 true) = _ :=
    step_segment 0 true (lockFree_of_thr hl ht₂ rfl) (by simp [tcpHdrSize]) hpeer hme
  have ht₃ : (arrive s₂ (⟨irs + 1, iss + 1, flgAck, wnd, [], peer, me⟩ : TcpSegOut).received 0 true).thr t =
      .openWait i .listen .none := by
    rw [arrive_thr_of_slot 0 true hsel₂, hi₂, hwk]; simp [ht₂]
  refine ⟨_, ?_, ?_, ht₃, fun ok => by simp only [step, runStep, ht₃, ne_eq, not_true_eq_false, and_false, if_false]⟩
  · rw [show handshake t me peer irs iss wnd =
      [.call t (.openRfc793 me none false) true, .segment ⟨irs, 0, flgSyn, wnd, [], peer, me⟩ iss true] ++
        [.segment ⟨irs + 1, iss + 1, flgAck, wnd, [], peer, me⟩ 0 true] from rfl, run_append_of_some h₂]
    exact (run_cons_of_step _ h₃).trans rfl
  · rw [arrive_pcbs_of_slot 0 true hsel₂, Function.update_same, hi₂, hpcb]; rfl

end Handshake

theorem handshake_establishes_init :
    ∃ s', run (fun _ => some 1500) (Sys.init 1)
        (handshake 0 ⟨0x0a000002, 80⟩ ⟨0x0a000005, 40000⟩ 1000 500 4096 ++ [.run 0 true]) = some s' ∧
      s'.pcbs = Function.update (Sys.init 1).pcbs 0
        { TcpPcb.zero with state := .established, «local» := ⟨0x0a000002, 80⟩, foreign := ⟨0x0a000005, 40000⟩
                           snd := ⟨500 + 1, 500 + 1, 4096, 1000 + 1, 500 + 1⟩, iss := 500
                           rcv := ⟨1000 + 1, BitVec.ofNat 16 bufSize⟩, irs := 1000 } ∧
      s'.thr = (Sys.init 1).thr ∧
      s'.out = (Sys.init 1).out ++ [.call 0 (.openRfc793 ⟨0x0a000002, 80⟩ none false),
        .seg (some 0) none
          ⟨500, 1000 + 1, flgSyn ||| flgAck, BitVec.ofNat 16 bufSize, [], ⟨0x0a000002, 80⟩, ⟨0x0a000005, 40000⟩⟩ true,
        .ret 0 (0 : Slot) []] :=
  handshake_establishes 1000 500 4096 .init (by decide) rfl (by decide) (by decide) (by decide) (by decide)
    (by decide) (by decide)

theorem handshake_stalls_wrap :
    ∃ s', run (fun _ => some 1500) (Sys.init 1)
        (handshake 0 ⟨0x0a000002, 80⟩ ⟨0x0a000005, 40000⟩ 0xfffffff0 500 4096) = some s' ∧
      (s'.pcbs 0).state = .synReceived ∧ s'.thr 0 = .openWait 0 .listen .none ∧
      ∀ ok, step (fun _ => some 1500) s' (.run 0 ok) = none :=
  handshake_stalls 0xfffffff0 500 4096 .init (by decide) rfl (by decide) (by decide) (by decide) (by decide)
    (by decide)

end Microps.Tcp
