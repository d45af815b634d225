import Microps.Tcp.Pcb

/-!
# Segment arrival

`tcp_segment_arrives` follows RFC 793 §3.9 for the states the stack handles.
The work it does on the PCB it selected is `tcpSegmentArrivesPcb`: LISTEN
takes a SYN, SYN_RECEIVED and ESTABLISHED check the sequence number
(`segAcceptable`) and the acknowledgement (`synReceivedAckOk`,
`establishedAck`), and ESTABLISHED appends the payload to the receive buffer.
Without a PCB, or with a CLOSED one, the segment is answered with a reset
(`arrivesNoPcb`).  An arrival emits at most one segment and may wake the
threads sleeping on the PCB (`Arrived`).
-/

namespace Microps.Tcp

/-- What `tcp_segment_arrives` leaves of the PCB it selected: the PCB, the
segment it hands to `tcp_output_segment` if any, whether it calls
`sched_wakeup(&pcb->ctx)`, and whether its copy of the payload ran past
`pcb->buf`. -/
structure Arrived where
  pcb : TcpPcb
  out : Option TcpSegOut
  wakeup : Bool
  overrun : Bool

/-- A reset with sequence number `seq`, as `tcp_output_segment(seq, 0, TCP_FLG_RST, ...)`. -/
def rstSeg (seq : BitVec 32) («local» foreign : IpEndpoint) : TcpSegOut :=
  ⟨seq, 0, flgRst, 0, [], «local», foreign⟩

/-- The reply when no PCB, or a CLOSED one, matches. -/
def arrivesNoPcb (a : TcpArrival) : Option TcpSegOut :=
  if flgIsset a.flags flgRst then none
  else if !flgIsset a.flags flgAck then
    some ⟨0, a.seg.seq + a.seg.len.setWidth 32, flgRst ||| flgAck, 0, [], a.local, a.foreign⟩
  else some (rstSeg a.seg.ack a.local a.foreign)

/-- The first check (sequence number) in SYN_RECEIVED and ESTABLISHED, on the
raw 32-bit values as the code compares them. -/
def segAcceptable (rcv : TcpRcv) (seg : TcpSegmentInfo) : Bool :=
  if seg.len = 0 then
    if rcv.wnd = 0 then seg.seq = rcv.nxt
    else rcv.nxt ≤ seg.seq ∧ seg.seq < rcv.nxt + rcv.wnd.setWidth 32
  else if rcv.wnd = 0 then false
  else (rcv.nxt ≤ seg.seq ∧ seg.seq < rcv.nxt + rcv.wnd.setWidth 32) ∨
    (rcv.nxt ≤ seg.seq + seg.len.setWidth 32 - 1 ∧
      seg.seq + seg.len.setWidth 32 - 1 < rcv.nxt + rcv.wnd.setWidth 32)

/-- The ACK check of SYN_RECEIVED: `snd.una <= seg.ack <= snd.nxt`. -/
def synReceivedAckOk (snd : TcpSnd) (seg : TcpSegmentInfo) : Bool :=
  snd.una ≤ seg.ack ∧ seg.ack ≤ snd.nxt

/-- The ACK check of ESTABLISHED: the new send variables, or `none` when the
segment acknowledges data not yet sent (answered with an ACK). -/
def establishedAck (snd : TcpSnd) (seg : TcpSegmentInfo) : Option TcpSnd :=
  if snd.una < seg.ack ∧ seg.ack ≤ snd.nxt then
    if snd.wl1 < seg.seq ∨ (snd.wl1 = seg.seq ∧ snd.wl2 ≤ seg.ack) then
      some { snd with una := seg.ack, wnd := seg.wnd, wl1 := seg.seq, wl2 := seg.ack }
    else some { snd with una := seg.ack }
  else if seg.ack < snd.una then some snd
  else if snd.nxt < seg.ack then none
  else some snd

/-- The seventh step in ESTABLISHED: append the payload, advance `rcv.nxt`,
shrink the window, acknowledge and wake the sleepers.  The copy
`memcpy(pcb->buf + (sizeof(pcb->buf) - pcb->rcv.wnd), data, len)` runs past the
end of `buf` exactly when `len > rcv.wnd`: undefined behaviour, which the model
flags and `bufWrite` keeps only to show where the bytes land. -/
def processText (pcb : TcpPcb) (a : TcpArrival) (woke : Bool) : Arrived :=
  if a.len = 0 then ⟨pcb, none, woke, false⟩
  else
    let pcb' := { pcb with
      buf := bufWrite pcb.buf (bufSize - pcb.rcv.wnd.toNat) a.data a.len
      rcv := { nxt := a.seg.seq + a.seg.len.setWidth 32, wnd := pcb.rcv.wnd - BitVec.ofNat 16 a.len } }
    ⟨pcb', some (tcpOutput pcb' flgAck []), true, decide (pcb.rcv.wnd.toNat < a.len)⟩

/-- The fifth check (ACK field) and what follows, once the segment is acceptable
and carries an ACK. -/
def processAck (pcb : TcpPcb) (a : TcpArrival) : Arrived :=
  if pcb.state = .synReceived ∧ !synReceivedAckOk pcb.snd a.seg then
    ⟨pcb, some (rstSeg a.seg.ack a.local a.foreign), false, false⟩
  else
    let woke := pcb.state = .synReceived
    let pcb := { pcb with state := .established }
    match establishedAck pcb.snd a.seg with
    | none => ⟨pcb, some (tcpOutput pcb flgAck []), woke, false⟩
    | some snd => processText { pcb with snd := snd } a woke

/-- SYN_RECEIVED and ESTABLISHED: the sequence number check, then the ACK. -/
def arrivesSynchronized (pcb : TcpPcb) (a : TcpArrival) : Arrived :=
  if !segAcceptable pcb.rcv a.seg then
    ⟨pcb, if flgIsset a.flags flgRst then none else some (tcpOutput pcb flgAck []), false, false⟩
  else if !flgIsset a.flags flgAck then ⟨pcb, none, false, false⟩
  else processAck pcb a

/-- LISTEN: a SYN fixes the endpoints, the receive window and the initial
sequence numbers (`iss` is `random()`), and is answered with SYN|ACK. -/
def arrivesListen (pcb : TcpPcb) (a : TcpArrival) (rnd : BitVec 32) : Arrived :=
  if flgIsset a.flags flgRst then ⟨pcb, none, false, false⟩
  else if flgIsset a.flags flgAck then ⟨pcb, some (rstSeg a.seg.ack a.local a.foreign), false, false⟩
  else if flgIsset a.flags flgSyn then
    let p := { pcb with «local» := a.local, foreign := a.foreign
                        rcv := { nxt := a.seg.seq + 1, wnd := BitVec.ofNat 16 bufSize }
                        irs := a.seg.seq, iss := rnd }
    ⟨{ p with snd := { p.snd with nxt := rnd + 1, una := rnd }, state := .synReceived },
      some (tcpOutput p (flgSyn ||| flgAck) []), false, false⟩
  else ⟨pcb, none, false, false⟩

/-- `tcp_segment_arrives` on the PCB it selected, which is not CLOSED. -/
def tcpSegmentArrivesPcb (pcb : TcpPcb) (a : TcpArrival) (rnd : BitVec 32) : Arrived :=
  match pcb.state with
  | .listen => arrivesListen pcb a rnd
  | .synReceived | .established => arrivesSynchronized pcb a
  | _ => ⟨pcb, none, false, false⟩

theorem tcpSegmentArrivesPcb_synchronized {pcb : TcpPcb}
    (h : pcb.state = .synReceived ∨ pcb.state = .established) (a : TcpArrival) (rnd : BitVec 32) :
    tcpSegmentArrivesPcb pcb a rnd = arrivesSynchronized pcb a := by
  unfold tcpSegmentArrivesPcb
  rcases h with h | h <;> rw [h]

theorem tcpSegmentArrivesPcb_listen {pcb : TcpPcb} (h : pcb.state = .listen) (a : TcpArrival)
    (rnd : BitVec 32) : tcpSegmentArrivesPcb pcb a rnd = arrivesListen pcb a rnd := by
  unfold tcpSegmentArrivesPcb
  rw [h]

theorem tcpSegmentArrivesPcb_other {pcb : TcpPcb} (h : pcb.state ≠ .listen)
    (h' : ¬(pcb.state = .synReceived ∨ pcb.state = .established)) (a : TcpArrival) (rnd : BitVec 32) :
    tcpSegmentArrivesPcb pcb a rnd = ⟨pcb, none, false, false⟩ := by
  unfold tcpSegmentArrivesPcb
  split <;> simp_all

/-- **The three ways of `tcp_segment_arrives`**, by the state of the PCB it
selected. -/
theorem tcpSegmentArrivesPcb_cases (pcb : TcpPcb) (a : TcpArrival) (rnd : BitVec 32) :
    (pcb.state = .listen ∧ tcpSegmentArrivesPcb pcb a rnd = arrivesListen pcb a rnd) ∨
    ((pcb.state = .synReceived ∨ pcb.state = .established) ∧
      tcpSegmentArrivesPcb pcb a rnd = arrivesSynchronized pcb a) ∨
    tcpSegmentArrivesPcb pcb a rnd = ⟨pcb, none, false, false⟩ := by
  by_cases hl : pcb.state = .listen
  · exact .inl ⟨hl, tcpSegmentArrivesPcb_listen hl a rnd⟩
  by_cases hsync : pcb.state = .synReceived ∨ pcb.state = .established
  · exact .inr (.inl ⟨hsync, tcpSegmentArrivesPcb_synchronized hsync a rnd⟩)
  · exact .inr (.inr (tcpSegmentArrivesPcb_other hl hsync a rnd))

theorem arrivesListen_state (pcb : TcpPcb) (a : TcpArrival) (rnd : BitVec 32) :
    (arrivesListen pcb a rnd).pcb.state = pcb.state ∨ (arrivesListen pcb a rnd).pcb.state = .synReceived := by
  unfold arrivesListen
  split_ifs <;> simp

theorem processText_pcb (pcb : TcpPcb) (a : TcpArrival) (w : Bool) :
    (processText pcb a w).pcb = if a.len = 0 then pcb else
      { pcb with buf := bufWrite pcb.buf (bufSize - pcb.rcv.wnd.toNat) a.data a.len
                 rcv := ⟨a.seg.seq + a.seg.len.setWidth 32, pcb.rcv.wnd - BitVec.ofNat 16 a.len⟩ } := by
  unfold processText
  split <;> rfl

/-- The slot `tcp_segment_arrives` works on: the one `tcp_pcb_select` returns,
unless it is CLOSED. -/
def arrivesSlot (pcbs : Slot → TcpPcb) (a : TcpArrival) : Option Slot :=
  match tcpPcbSelect pcbs a.local (some a.foreign) with
  | some i => if (pcbs i).state = .closed then none else some i
  | none => none

theorem arrivesSlot_ne_closed {pcbs : Slot → TcpPcb} {a : TcpArrival} {i : Slot}
    (h : arrivesSlot pcbs a = some i) : (pcbs i).state ≠ .closed := by
  unfold arrivesSlot at h
  split at h
  · split at h
    · cases h
    · cases h; assumption
  · cases h

@[simp] theorem processText_state (pcb : TcpPcb) (a : TcpArrival) (w : Bool) :
    (processText pcb a w).pcb.state = pcb.state := by
  rw [processText_pcb]; split <;> rfl

@[simp] theorem processText_snd (pcb : TcpPcb) (a : TcpArrival) (w : Bool) :
    (processText pcb a w).pcb.snd = pcb.snd := by
  rw [processText_pcb]; split <;> rfl

@[simp] theorem processText_local (pcb : TcpPcb) (a : TcpArrival) (w : Bool) :
    (processText pcb a w).pcb.local = pcb.local := by
  rw [processText_pcb]; split <;> rfl

@[simp] theorem processText_foreign (pcb : TcpPcb) (a : TcpArrival) (w : Bool) :
    (processText pcb a w).pcb.foreign = pcb.foreign := by
  rw [processText_pcb]; split <;> rfl

/-- **What an arrival at a SYN_RECEIVED or ESTABLISHED PCB does to it.**
Nothing; or, once the ACK passed the SYN_RECEIVED check, the PCB becomes
ESTABLISHED, and takes the send variables of the ACK processing of ESTABLISHED
and then the payload, unless the ACK acknowledges unsent data. -/
theorem arrivesSynchronized_cases (pcb : TcpPcb) (a : TcpArrival) :
    (arrivesSynchronized pcb a).pcb = pcb ∨
    ((pcb.state = .synReceived → synReceivedAckOk pcb.snd a.seg = true) ∧
      ((establishedAck pcb.snd a.seg = none ∧
          (arrivesSynchronized pcb a).pcb = { pcb with state := .established }) ∨
        ∃ snd, establishedAck pcb.snd a.seg = some snd ∧
          (arrivesSynchronized pcb a).pcb = (processText { pcb with state := .established, snd := snd } a false).pcb)) := by
  unfold arrivesSynchronized processAck
  dsimp only
  split
  · exact .inl rfl
  split
  · exact .inl rfl
  split
  · exact .inl rfl
  rename_i hack
  refine .inr ⟨fun hs => by simpa [hs] using hack, ?_⟩
  cases h : establishedAck pcb.snd a.seg with
  | none => exact .inl ⟨rfl, rfl⟩
  | some snd => exact .inr ⟨snd, rfl, by simp only [processText_pcb]⟩

/-- An arrival leaves a PCB that is not FREE not FREE. -/
theorem tcpSegmentArrivesPcb_state_ne_free {pcb : TcpPcb} (a : TcpArrival) (rnd : BitVec 32)
    (hf : pcb.state ≠ .free) : (tcpSegmentArrivesPcb pcb a rnd).pcb.state ≠ .free := by
  rcases tcpSegmentArrivesPcb_cases pcb a rnd with ⟨-, h⟩ | ⟨-, h⟩ | h <;> rw [h]
  · rcases arrivesListen_state pcb a rnd with h | h <;> rw [h] <;> simp [hf]
  · rcases arrivesSynchronized_cases pcb a with h | ⟨-, ⟨-, h⟩ | ⟨_, -, h⟩⟩ <;> rw [h] <;> simp [hf]
  · exact hf

end Microps.Tcp
