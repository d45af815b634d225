import Microps.Tcp.Demux

/-!
# What a peer can do to a connection

RFC 793 lets a peer end a connection: a reset aborts it in SYN_RECEIVED and
ESTABLISHED, and a FIN starts its close.  `tcp_segment_arrives` leaves both
checks empty: a reset that is not acceptable is dropped, an acceptable one is
handled as any other segment, and the FIN bit is never read.  Every other
branch keeps the endpoints and the initial sequence numbers of a synchronized
PCB, and moves a state only from LISTEN to SYN_RECEIVED and from SYN_RECEIVED
to ESTABLISHED.

`PeerMove` is that, read as a relation between the PCB before and after any
number of arrivals.  `peer_cannot_close` proves that every run of datagrams and
external events with defined behaviour, from any state, moves each slot by it:
nothing a peer sends makes a PCB CLOSED or FREE, moves it back, or changes the
connection a synchronized PCB holds.  Only the user calls end a connection.
(A payload longer than the receive window is copied past `pcb->buf` into the
next PCB, which the model does not follow, hence the restriction.)

A reset can even draw a reset back: `reset_answered_with_reset` says exactly
when, for every table and every segment with RST.  It happens at a SYN_RECEIVED
PCB that accepts the reset's sequence number and finds its ACK out of range.
-/

namespace Microps.Tcp

variable {n : Nat} {route : BitVec 32 → Option (BitVec 16)}

open Sys

/-- An event that comes from outside the user threads: a datagram for
`tcp_input`, or the external event. -/
def Event.external : Event n → Bool
  | .input .. | .interrupt => true
  | _ => false

/-- The state stays, or moves forward along the handshake. -/
def HandshakeLe (p q : TcpPcbState) : Prop :=
  q = p ∨ (p = .listen ∧ (q = .synReceived ∨ q = .established)) ∨ (p = .synReceived ∧ q = .established)

/-- What arrivals can make of a PCB `p`: its state moves along the handshake
only, and once synchronized it keeps its endpoints and initial sequence numbers. -/
def PeerMove (p q : TcpPcb) : Prop :=
  HandshakeLe p.state q.state ∧
    (p.state = .synReceived ∨ p.state = .established →
      q.local = p.local ∧ q.foreign = p.foreign ∧ q.iss = p.iss ∧ q.irs = p.irs)

theorem PeerMove.refl (p : TcpPcb) : PeerMove p p := ⟨.inl rfl, fun _ => ⟨rfl, rfl, rfl, rfl⟩⟩

theorem HandshakeLe.trans {a b c : TcpPcbState} (h₁ : HandshakeLe a b) (h₂ : HandshakeLe b c) :
    HandshakeLe a c := by
  rcases h₂ with rfl | ⟨rfl, h⟩ | ⟨rfl, rfl⟩ <;> rcases h₁ with rfl | ⟨rfl, h'⟩ | ⟨rfl, h'⟩ <;>
    simp_all [HandshakeLe]

theorem PeerMove.trans {p q r : TcpPcb} (h₁ : PeerMove p q) (h₂ : PeerMove q r) : PeerMove p r := by
  refine ⟨h₁.1.trans h₂.1, fun hp => ?_⟩
  have hq : q.state = .synReceived ∨ q.state = .established := by
    rcases h₁.1 with h | ⟨hl, -⟩ | ⟨-, h⟩
    · rwa [h]
    · rcases hp with h | h <;> rw [h] at hl <;> cases hl
    · exact .inr h
  obtain ⟨h1, h2, h3, h4⟩ := h₁.2 hp
  obtain ⟨h1', h2', h3', h4'⟩ := h₂.2 hq
  exact ⟨h1'.trans h1, h2'.trans h2, h3'.trans h3, h4'.trans h4⟩

@[simp] theorem processText_iss (pcb : TcpPcb) (a : TcpArrival) (w : Bool) :
    (processText pcb a w).pcb.iss = pcb.iss := by
  rw [processText_pcb]; split <;> rfl

@[simp] theorem processText_irs (pcb : TcpPcb) (a : TcpArrival) (w : Bool) :
    (processText pcb a w).pcb.irs = pcb.irs := by
  rw [processText_pcb]; split <;> rfl

/-- **One arrival** moves the PCB it selected by `PeerMove`. -/
theorem peerMove_arrives (pcb : TcpPcb) (a : TcpArrival) (rnd : BitVec 32) :
    PeerMove pcb (tcpSegmentArrivesPcb pcb a rnd).pcb := by
  rcases tcpSegmentArrivesPcb_cases pcb a rnd with ⟨hl, h⟩ | ⟨hsync, h⟩ | h <;> rw [h]
  · refine ⟨?_, fun hs => by rcases hs with hs | hs <;> rw [hs] at hl <;> cases hl⟩
    rcases arrivesListen_state pcb a rnd with h' | h' <;> rw [h']
    · exact .inl rfl
    · exact .inr (.inl ⟨hl, .inl rfl⟩)
  · have hst : HandshakeLe pcb.state .established := by
      rcases hsync with h' | h' <;> rw [h']
      · exact .inr (.inr ⟨rfl, rfl⟩)
      · exact .inl rfl
    rcases arrivesSynchronized_cases pcb a with h' | ⟨-, ⟨-, h'⟩ | ⟨snd, -, h'⟩⟩ <;> rw [h']
    · exact PeerMove.refl pcb
    · exact ⟨hst, fun _ => ⟨rfl, rfl, rfl, rfl⟩⟩
    · exact ⟨by simpa using hst, fun _ => by simp⟩
  · exact PeerMove.refl pcb

/-- **One external event** moves every slot by `PeerMove`. -/
theorem peerMove_step {s s' : Sys n} {e : Event n} (he : e.external = true) (hs : step route s e = some s')
    (i : Slot) : PeerMove (s.pcbs i) (s'.pcbs i) := by
  rcases step_cases hs with ⟨data, src, dst, rnd, ok, -, -, rfl⟩ | ⟨-, -, rfl⟩ | ⟨t, c, ok, rfl, -⟩ |
      ⟨t, ok, -, -, -, -, rfl, -⟩ | ⟨t, ok, -, -, -, rfl, -⟩ | ⟨t, ok, -, -, -, -, rfl, -⟩ |
      ⟨t, ok, -, -, -, rfl, -⟩
  · cases tcpInput data src dst with
    | none => exact PeerMove.refl _
    | some a =>
      cases hi : arrivesSlot s.pcbs a with
      | none => rw [Option.elim, arrive_pcbs_of_none rnd ok hi]; exact PeerMove.refl _
      | some j =>
        rw [Option.elim, arrive_pcbs_of_slot rnd ok hi]
        by_cases hij : i = j
        · subst hij; rw [Function.update_same]; exact peerMove_arrives _ a rnd
        · rw [Function.update_noteq hij]; exact PeerMove.refl _
  · exact PeerMove.refl _
  all_goals cases he

/-- Along every run of datagrams and external events each slot moves by
`PeerMove`. -/
theorem peerMove_run {s s' : Sys n} {es : List (Event n)} (hes : ∀ e ∈ es, e.external = true)
    (h : run route s es = some s') (i : Slot) : PeerMove (s.pcbs i) (s'.pcbs i) := by
  induction es generalizing s with
  | nil => cases h; exact PeerMove.refl _
  | cons e es ih =>
    cases hs : step route s e with
    | none => simp [run, hs] at h
    | some s₁ =>
      rw [run_cons_of_step es hs] at h
      exact (peerMove_step (hes e (List.mem_cons_self e es)) hs i).trans
        (ih (fun e' he' => hes e' (List.mem_cons_of_mem e he')) h)

/-- **A peer cannot close a connection.**  Along every run of datagrams and
external events with defined behaviour, from any state, each PCB's state stays
or moves forward along the handshake (LISTEN to SYN_RECEIVED to ESTABLISHED):
no PCB becomes CLOSED or FREE or moves back, whatever the segments carry,
resets and FINs included; and a SYN_RECEIVED or ESTABLISHED PCB keeps its
local and foreign endpoints and its initial sequence numbers. -/
theorem peer_cannot_close {s s' : Sys n} {es : List (Event n)} (hes : ∀ e ∈ es, e.external = true)
    (h : runIf route Defined s es = some s') (i : Slot) : PeerMove (s.pcbs i) (s'.pcbs i) :=
  peerMove_run hes (run_of_runIf es h) i

theorem peer_cannot_close_reset :
    ∃ s s', runIf (fun _ => some 1500) Defined (Sys.init 1)
        (handshake 0 ⟨0x0a000002, 80⟩ ⟨0x0a000005, 40000⟩ 1000 500 4096) = some s ∧
      runIf (fun _ => some 1500) Defined s
        [.segment ⟨1001, 501, flgRst ||| flgAck, 4096, [], ⟨0x0a000005, 40000⟩, ⟨0x0a000002, 80⟩⟩ 0 true,
         .interrupt] = some s' ∧
      (s'.pcbs 0).state = .established ∧ PeerMove (s.pcbs 0) (s'.pcbs 0) := by
  obtain ⟨s, hs, hst⟩ := exists_of_decide
    (P := fun s : Sys 1 => ((runIf (fun _ => some 1500) Defined s
      [.segment ⟨1001, 501, flgRst ||| flgAck, 4096, [], ⟨0x0a000005, 40000⟩, ⟨0x0a000002, 80⟩⟩ 0 true,
       .interrupt]).map fun s' => decide ((s'.pcbs 0).state = .established)) = some true)
    (o := runIf (fun _ => some 1500) Defined (Sys.init 1)
      (handshake 0 ⟨0x0a000002, 80⟩ ⟨0x0a000005, 40000⟩ 1000 500 4096))
    (by decide)
  obtain ⟨s', hs', he⟩ := Option.map_eq_some'.mp hst
  exact ⟨s, s', hs, hs', of_decide_eq_true he, peer_cannot_close (by decide) hs' 0⟩

/-! ### The answer to a reset -/

/-- What `tcp_segment_arrives` answers to a segment with RST at a SYN_RECEIVED or
ESTABLISHED PCB: a reset exactly when the PCB is SYN_RECEIVED, the sequence
check passed and the ACK is out of `snd.una ..= snd.nxt`. -/
theorem arrivesSynchronized_rst (pcb : TcpPcb) {a : TcpArrival} (hrst : flgIsset a.flags flgRst = true) :
    (∃ o, (arrivesSynchronized pcb a).out = some o ∧ flgIsset o.flg flgRst = true) ↔
      pcb.state = .synReceived ∧ segAcceptable pcb.rcv a.seg = true ∧ flgIsset a.flags flgAck = true ∧
        synReceivedAckOk pcb.snd a.seg = false := by
  have hack : flgIsset flgAck flgRst = false := by decide
  unfold arrivesSynchronized processAck
  split_ifs with h₁ h₂ h₃
  · simp_all
  · simp_all
  · simp_all [rstSeg]; decide
  · refine iff_of_false ?_ (by simp_all)
    rintro ⟨o, ho, hr⟩
    dsimp only at ho
    split at ho
    · cases ho; simp [hack] at hr
    · unfold processText at ho; split at ho <;> cases ho; simp [hack] at hr

/-- The same at the PCB `tcp_pcb_select` chose: a LISTEN PCB drops a reset. -/
theorem tcpSegmentArrivesPcb_rst (pcb : TcpPcb) {a : TcpArrival} (rnd : BitVec 32)
    (hrst : flgIsset a.flags flgRst = true) :
    (∃ o, (tcpSegmentArrivesPcb pcb a rnd).out = some o ∧ flgIsset o.flg flgRst = true) ↔
      pcb.state = .synReceived ∧ segAcceptable pcb.rcv a.seg = true ∧ flgIsset a.flags flgAck = true ∧
        synReceivedAckOk pcb.snd a.seg = false := by
  unfold tcpSegmentArrivesPcb
  split
  · simp [arrivesListen, hrst, *]
  · exact arrivesSynchronized_rst pcb hrst
  · exact arrivesSynchronized_rst pcb hrst
  · simp_all

/-- **The stack answers a reset with a reset in one case only.**  For every
table and every segment with RST, `tcp_segment_arrives` sends a reset back
exactly when the segment reaches a SYN_RECEIVED PCB, passes its sequence check,
and carries an ACK outside `snd.una ..= snd.nxt`: the second check of RFC 793,
which would drop or honour the reset, is empty, and the fifth answers a bad
ACK with a reset whatever the segment's own flags. -/
theorem reset_answered_with_reset {s : Sys n} {a : TcpArrival} (rnd : BitVec 32) (ok : Bool)
    (hrst : flgIsset a.flags flgRst = true) :
    (∃ j o, (arrive s a rnd ok).out = s.out ++ [.seg j none o ok] ∧ flgIsset o.flg flgRst = true) ↔
      ∃ i, arrivesSlot s.pcbs a = some i ∧ (s.pcbs i).state = .synReceived ∧
        segAcceptable (s.pcbs i).rcv a.seg = true ∧ flgIsset a.flags flgAck = true ∧
        synReceivedAckOk (s.pcbs i).snd a.seg = false := by
  cases hi : arrivesSlot s.pcbs a with
  | none => simp [arrive_out_of_none rnd ok hi, arrivesNoPcb, hrst]
  | some i =>
    have h := tcpSegmentArrivesPcb_rst (s.pcbs i) rnd hrst
    rw [arrive_out_of_slot rnd ok hi]
    cases ho : (tcpSegmentArrivesPcb (s.pcbs i) a rnd).out with
    | none => simp_all
    | some o =>
      simp only [ho, Option.some.injEq, exists_eq_left'] at h
      constructor
      · rintro ⟨j, o', he, hr⟩
        simp only [Option.map_some', Option.toList_some, List.append_cancel_left_eq, List.cons.injEq,
          Out.seg.injEq, and_true] at he
        obtain ⟨rfl, -, rfl⟩ := he
        exact ⟨i, rfl, h.mp hr⟩
      · rintro ⟨i', hi', hc⟩
        cases hi'
        exact ⟨some i, o, by simp, h.mpr hc⟩

/-- A passive open takes a SYN (`iss = 500`); a RST|ACK acknowledging 9999 comes
back with a reset. -/
theorem reset_answered_with_reset_synReceived :
    ∃ s, run (fun _ => some 1500) (Sys.init 1)
        [.call 0 (.openRfc793 ⟨0x0a000002, 80⟩ none false) true,
         .segment ⟨1000, 0, flgSyn, 4096, [], ⟨0x0a000005, 40000⟩, ⟨0x0a000002, 80⟩⟩ 500 true] = some s ∧
      ∃ j o, (arrive s (TcpSegOut.received
          ⟨1001, 9999, flgRst ||| flgAck, 4096, [], ⟨0x0a000005, 40000⟩, ⟨0x0a000002, 80⟩⟩) 0 true).out =
        s.out ++ [.seg j none o true] ∧ flgIsset o.flg flgRst = true := by
  obtain ⟨s, hs, hi, hst, hacc, hok⟩ := exists_of_decide
    (P := fun s : Sys 1 =>
      arrivesSlot s.pcbs (TcpSegOut.received
        ⟨1001, 9999, flgRst ||| flgAck, 4096, [], ⟨0x0a000005, 40000⟩, ⟨0x0a000002, 80⟩⟩) = some 0 ∧
      (s.pcbs 0).state = .synReceived ∧ segAcceptable (s.pcbs 0).rcv ⟨1001, 9999, 0, 4096⟩ = true ∧
      synReceivedAckOk (s.pcbs 0).snd ⟨1001, 9999, 0, 4096⟩ = false)
    (o := run (fun _ => some 1500) (Sys.init 1)
      [.call 0 (.openRfc793 ⟨0x0a000002, 80⟩ none false) true,
       .segment ⟨1000, 0, flgSyn, 4096, [], ⟨0x0a000005, 40000⟩, ⟨0x0a000002, 80⟩⟩ 500 true]) (by decide)
  exact ⟨s, hs, (reset_answered_with_reset 0 true (by decide)).mpr ⟨0, hi, hst, hacc, by decide, hok⟩⟩

end Microps.Tcp
