import Microps.Tcp.Stack

/-!
# The receive buffer

`tcp_segment_arrives` appends an accepted payload at `sizeof(buf) - rcv.wnd`,
whatever its sequence number, and sets `rcv.nxt = seg.seq + seg.len`;
`tcp_receive` takes bytes from the head.  Over the life of one connection
(`ConnEvent`, `connStep`) the bytes returned to the user followed by the bytes
still buffered are the peer's stream from `irs + 1` up to `rcv.nxt`, as long
as every data segment arrives in order and fits the window (`in_order_delivery`).
Out of order, they are not (`out_of_order_delivered`).
-/

namespace Microps.Tcp

/-! ### What an arrival does to the receive side -/

/-- An arrival at a synchronized PCB leaves the state or makes it ESTABLISHED,
and either leaves the receive side alone or appends the payload. -/
theorem arrivesSynchronized_recv (pcb : TcpPcb) (a : TcpArrival) :
    ((arrivesSynchronized pcb a).pcb.state = pcb.state ∨
      (arrivesSynchronized pcb a).pcb.state = .established) ∧
    (((arrivesSynchronized pcb a).pcb.rcv = pcb.rcv ∧ (arrivesSynchronized pcb a).pcb.buf = pcb.buf) ∨
      (a.len ≠ 0 ∧
        (arrivesSynchronized pcb a).pcb.rcv =
          ⟨a.seg.seq + a.seg.len.setWidth 32, pcb.rcv.wnd - BitVec.ofNat 16 a.len⟩ ∧
        (arrivesSynchronized pcb a).pcb.buf = bufWrite pcb.buf (bufSize - pcb.rcv.wnd.toNat) a.data a.len)) := by
  rcases arrivesSynchronized_cases pcb a with h | ⟨-, ⟨-, h⟩ | ⟨snd, -, h⟩⟩ <;> rw [h]
  · exact ⟨.inl rfl, .inl ⟨rfl, rfl⟩⟩
  · exact ⟨.inr rfl, .inl ⟨rfl, rfl⟩⟩
  · rw [processText_pcb]
    split
    · exact ⟨.inr rfl, .inl ⟨rfl, rfl⟩⟩
    · exact ⟨.inr rfl, .inr ⟨‹_›, rfl, rfl⟩⟩

/-- An acceptable segment with an ACK and a payload, at an ESTABLISHED PCB, is
appended at `sizeof(buf) - rcv.wnd` and shrinks the window by its length. -/
theorem arrivesSynchronized_text {pcb : TcpPcb} {a : TcpArrival} (snd : TcpSnd)
    (hs : pcb.state = .established) (hacc : segAcceptable pcb.rcv a.seg = true)
    (hack : flgIsset a.flags flgAck = true) (hsnd : establishedAck pcb.snd a.seg = some snd)
    (hlen : a.len ≠ 0) :
    (arrivesSynchronized pcb a).pcb =
      { pcb with snd := snd, buf := bufWrite pcb.buf (bufSize - pcb.rcv.wnd.toNat) a.data a.len
                 rcv := ⟨a.seg.seq + a.seg.len.setWidth 32, pcb.rcv.wnd - BitVec.ofNat 16 a.len⟩ } := by
  simp only [arrivesSynchronized, processAck, hacc, hack, hs, hsnd]
  simp [processText_pcb, hlen]

/-! ### One connection -/

/-- What can happen to the PCB of a connection once it took its SYN: a segment
arrives, `tcp_receive` copies bytes out, `tcp_send` advances `snd.nxt`, or a
failing call sets the state to CLOSED. -/
inductive ConnEvent
  | arrive (a : TcpArrival) (rnd : BitVec 32)
  | receive (size : Nat)
  | send (slen : Nat)
  | close

/-- The PCB and the bytes `tcp_receive` returned so far. -/
def connStep (st : TcpPcb × List (BitVec 8)) : ConnEvent → TcpPcb × List (BitVec 8)
  | .arrive a rnd => ((tcpSegmentArrivesPcb st.1 a rnd).pcb, st.2)
  | .receive size =>
    if st.1.state = .established ∧ st.1.rcv.wnd.toNat ≠ bufSize then
      ((tcpReceiveTake st.1 size).1, st.2 ++ (tcpReceiveTake st.1 size).2)
    else st
  | .send slen => (sendAdvance st.1 slen, st.2)
  | .close => ({ st.1 with state := .closed }, st.2)

/-- `n` bytes of the peer's stream `S`, from sequence number `start` on. -/
def streamFrom (S : BitVec 32 → BitVec 8) (start : BitVec 32) (n : Nat) : List (BitVec 8) :=
  (List.range n).map fun k => S (start + BitVec.ofNat 32 k)

theorem streamFrom_add (S : BitVec 32 → BitVec 8) (start : BitVec 32) (m k : Nat) :
    streamFrom S start (m + k) = streamFrom S start m ++ streamFrom S (start + BitVec.ofNat 32 m) k := by
  simp only [streamFrom, List.range_add, List.map_append, List.map_map]
  congr 1
  apply List.map_congr_left
  intro j _
  simp only [Function.comp, BitVec.ofNat_add, BitVec.add_assoc]

/-- A data segment the peer sends in order: it starts at `rcv.nxt`, fits the
window, carries the stream from there, and no SYN or FIN. -/
def InOrder (S : BitVec 32 → BitVec 8) (pcb : TcpPcb) (a : TcpArrival) : Prop :=
  a.len ≠ 0 → (pcb.state = .synReceived ∨ pcb.state = .established) →
    a.seg.seq = pcb.rcv.nxt ∧ a.len ≤ pcb.rcv.wnd.toNat ∧ a.data = streamFrom S a.seg.seq a.len ∧
      a.seg.len = BitVec.ofNat 16 a.len

instance (S : BitVec 32 → BitVec 8) (pcb : TcpPcb) (a : TcpArrival) : Decidable (InOrder S pcb a) :=
  inferInstanceAs (Decidable (a.len ≠ 0 → (pcb.state = .synReceived ∨ pcb.state = .established) →
    a.seg.seq = pcb.rcv.nxt ∧ a.len ≤ pcb.rcv.wnd.toNat ∧ a.data = streamFrom S a.seg.seq a.len ∧
      a.seg.len = BitVec.ofNat 16 a.len))

/-- An arrival is in order; the other events ask nothing. -/
def EventInOrder (S : BitVec 32 → BitVec 8) (pcb : TcpPcb) : ConnEvent → Prop
  | .arrive a _ => InOrder S pcb a
  | _ => True

instance (S : BitVec 32 → BitVec 8) (pcb : TcpPcb) : (e : ConnEvent) → Decidable (EventInOrder S pcb e)
  | .arrive a _ => inferInstanceAs (Decidable (InOrder S pcb a))
  | .receive _ | .send _ | .close => isTrue trivial

/-- Every segment of the run arrives in order. -/
def RunInOrder (S : BitVec 32 → BitVec 8) : TcpPcb × List (BitVec 8) → List ConnEvent → Prop
  | _, [] => True
  | st, e :: es => EventInOrder S st.1 e ∧ RunInOrder S (connStep st e) es

instance decRunInOrder (S : BitVec 32 → BitVec 8) :
    (st : TcpPcb × List (BitVec 8)) → (evs : List ConnEvent) → Decidable (RunInOrder S st evs)
  | _, [] => isTrue trivial
  | st, e :: es => @instDecidableAnd _ _ _ (decRunInOrder S (connStep st e) es)

/-- The bytes returned followed by the bytes buffered are the stream from
`start` up to `rcv.nxt`. -/
def Delivered (S : BitVec 32 → BitVec 8) (start : BitVec 32) (st : TcpPcb × List (BitVec 8)) : Prop :=
  (st.1.state = .synReceived ∨ st.1.state = .established ∨ st.1.state = .closed) ∧
  ∃ N, st.2 ++ bufRead st.1.buf (bufSize - st.1.rcv.wnd.toNat) = streamFrom S start N ∧
    st.1.rcv.nxt = start + BitVec.ofNat 32 N

section Delivered

variable {S : BitVec 32 → BitVec 8} {start : BitVec 32}

theorem delivered_arrivesSynchronized {pcb : TcpPcb} {d : List (BitVec 8)} {a : TcpArrival} (hs : pcb.state = .synReceived ∨ pcb.state = .established)
    (h : Delivered S start (pcb, d)) (ho : InOrder S pcb a) :
    Delivered S start ((arrivesSynchronized pcb a).pcb, d) := by
  obtain ⟨-, N, hN, hnxt⟩ := h
  obtain ⟨hstate, hrecv⟩ := arrivesSynchronized_recv pcb a
  refine ⟨by rcases hstate with h | h <;> rcases hs with hs | hs <;> simp [h, hs], ?_⟩
  rcases hrecv with ⟨hr, hb⟩ | ⟨hlen, hr, hb⟩
  · exact ⟨N, by rw [hr, hb]; exact hN, by rw [hr]; exact hnxt⟩
  obtain ⟨hseq, hwnd, hdata, hslen⟩ := ho hlen hs
  have hw : (pcb.rcv.wnd - BitVec.ofNat 16 a.len).toNat = pcb.rcv.wnd.toNat - a.len := by
    rw [BitVec.toNat_sub, BitVec.toNat_ofNat]; omega
  have hoff : bufSize - (pcb.rcv.wnd.toNat - a.len) = bufSize - pcb.rcv.wnd.toNat + a.len := by
    have := pcb.rcv.wnd.isLt; simp only [bufSize] at *; omega
  have hdl : a.data.length = a.len := by simp [hdata, streamFrom]
  have hsl : a.seg.len.setWidth 32 = BitVec.ofNat 32 a.len := by
    rw [hslen]; apply BitVec.eq_of_toNat_eq; simp; omega
  refine ⟨N + a.len, ?_, ?_⟩
  · rw [hr, hb, hw, hoff, ← hdl, bufRead_bufWrite, ← List.append_assoc, hN, hdl,
      streamFrom_add, ← hnxt, ← hseq, hdata]
  · rw [hr, hseq, hsl, hnxt, BitVec.ofNat_add, BitVec.add_assoc]

theorem delivered_arrive {st : TcpPcb × List (BitVec 8)} {a : TcpArrival} (rnd : BitVec 32)
    (h : Delivered S start st) (ho : InOrder S st.1 a) : Delivered S start (connStep st (.arrive a rnd)) := by
  obtain ⟨pcb, d⟩ := st
  rcases or_assoc.mpr h.1 with hs | hs
  · rw [connStep, tcpSegmentArrivesPcb_synchronized hs]
    exact delivered_arrivesSynchronized hs h ho
  · simp only at hs
    rw [connStep, tcpSegmentArrivesPcb_other (by simp [hs]) (by simp [hs])]
    exact h

theorem delivered_receive {st : TcpPcb × List (BitVec 8)} (size : Nat) (h : Delivered S start st) :
    Delivered S start (connStep st (.receive size)) := by
  obtain ⟨hs, N, hN, hnxt⟩ := h
  simp only [connStep]
  split
  · exact ⟨hs, N, by rw [List.append_assoc, tcpReceiveTake_front]; exact hN, hnxt⟩
  · exact ⟨hs, N, hN, hnxt⟩

/-- Every event of a run in order keeps `Delivered`. -/
theorem delivered_run :
    ∀ (evs : List ConnEvent) (st : TcpPcb × List (BitVec 8)), Delivered S start st →
      RunInOrder S st evs → Delivered S start (evs.foldl connStep st)
  | [], _, h, _ => h
  | .arrive a rnd :: evs, _, h, ⟨ho, hr⟩ => delivered_run evs _ (delivered_arrive rnd h ho) hr
  | .receive size :: evs, _, h, ⟨_, hr⟩ => delivered_run evs _ (delivered_receive size h) hr
  | .send _ :: evs, _, h, ⟨_, hr⟩ => delivered_run evs _ h hr
  | .close :: evs, _, ⟨_, h⟩, ⟨_, hr⟩ => delivered_run evs _ ⟨by simp [connStep], h⟩ hr

end Delivered

/-- A LISTEN PCB that takes a SYN starts a delivered stream at `seg.seq + 1`. -/
theorem delivered_arrivesListen (S : BitVec 32 → BitVec 8) {pcb : TcpPcb} {a : TcpArrival}
    (rnd : BitVec 32) (hsyn : flgIsset a.flags flgSyn = true) (hrst : flgIsset a.flags flgRst = false)
    (hack : flgIsset a.flags flgAck = false) :
    Delivered S (a.seg.seq + 1) ((arrivesListen pcb a rnd).pcb, []) := by
  simp only [arrivesListen, hsyn, hrst, hack]
  exact ⟨by simp, 0, by simp [bufSize, bufRead, streamFrom], by simp⟩

/-- **In order, the user gets the peer's stream.**  From the SYN that a LISTEN
PCB takes, along any run of arrivals, receives, sends and closes in which every
data segment starts at `rcv.nxt`, fits the window and carries the peer's stream
`S`, the bytes `tcp_receive` returned followed by the bytes buffered are the
stream from the SYN's sequence number plus one up to `rcv.nxt`. -/
theorem in_order_delivery (S : BitVec 32 → BitVec 8) (pcb : TcpPcb) (a : TcpArrival) (rnd : BitVec 32)
    (evs : List ConnEvent) (hl : pcb.state = .listen) (hsyn : flgIsset a.flags flgSyn = true)
    (hrst : flgIsset a.flags flgRst = false) (hack : flgIsset a.flags flgAck = false)
    (hrun : RunInOrder S ((tcpSegmentArrivesPcb pcb a rnd).pcb, []) evs) :
    Delivered S (a.seg.seq + 1) (evs.foldl connStep ((tcpSegmentArrivesPcb pcb a rnd).pcb, [])) := by
  rw [tcpSegmentArrivesPcb, hl] at hrun ⊢
  exact delivered_run evs _ (delivered_arrivesListen S rnd hsyn hrst hack) hrun

theorem in_order_delivery_two_bytes :
    RunInOrder (fun k => k.setWidth 8)
      ((tcpSegmentArrivesPcb { TcpPcb.zero with state := .listen }
        ⟨⟨1000, 0, 1, 4096⟩, flgSyn, [], 0, ⟨0x0a000002, 80⟩, ⟨0x0a000005, 40000⟩⟩ 500).pcb, [])
      [.arrive ⟨⟨1001, 501, 2, 4096⟩, flgAck ||| flgPsh, [233, 234], 2, ⟨0x0a000002, 80⟩,
        ⟨0x0a000005, 40000⟩⟩ 0, .receive 2] ∧
    Delivered (fun k => k.setWidth 8) (1000 + 1)
      ([.arrive ⟨⟨1001, 501, 2, 4096⟩, flgAck ||| flgPsh, [233, 234], 2, ⟨0x0a000002, 80⟩,
        ⟨0x0a000005, 40000⟩⟩ 0, .receive 2].foldl connStep
        ((tcpSegmentArrivesPcb { TcpPcb.zero with state := .listen }
          ⟨⟨1000, 0, 1, 4096⟩, flgSyn, [], 0, ⟨0x0a000002, 80⟩, ⟨0x0a000005, 40000⟩⟩ 500).pcb, [])) :=
  have h : RunInOrder (fun k => k.setWidth 8)
      ((tcpSegmentArrivesPcb { TcpPcb.zero with state := .listen }
        ⟨⟨1000, 0, 1, 4096⟩, flgSyn, [], 0, ⟨0x0a000002, 80⟩, ⟨0x0a000005, 40000⟩⟩ 500).pcb, [])
      [.arrive ⟨⟨1001, 501, 2, 4096⟩, flgAck ||| flgPsh, [233, 234], 2, ⟨0x0a000002, 80⟩,
        ⟨0x0a000005, 40000⟩⟩ 0, .receive 2] := by decide
  ⟨h, in_order_delivery _ _ _ _ _ rfl (by decide) (by decide) (by decide) h⟩

/-- **Out of order, the user gets the wrong bytes.**  After the handshake
(`irs = 1000`) a segment carrying the peer's bytes at 1003 and 1004 arrives
before those at 1001 and 1002.  Its head lies in the window, so it is appended
at the head of the empty buffer and `tcp_receive` returns its two bytes, where
the stream from `irs + 1` begins with the bytes at 1001 and 1002. -/
theorem out_of_order_delivered :
    ∃ s, run (fun _ => some 1500) (Sys.init 1)
        (handshake 0 ⟨0x0a000002, 80⟩ ⟨0x0a000005, 40000⟩ 1000 500 4096 ++
          [.segment ⟨1003, 501, flgAck ||| flgPsh, 4096, streamFrom (fun k => k.setWidth 8) 1003 2,
            ⟨0x0a000005, 40000⟩, ⟨0x0a000002, 80⟩⟩ 0 true,
           .run 0 true, .call 0 (.receive 0 2) true]) = some s ∧
      s.out.getLast? = some (.ret 0 2 (streamFrom (fun k => k.setWidth 8) 1003 2)) ∧
      streamFrom (fun k => k.setWidth 8) 1003 2 ≠ streamFrom (fun k => k.setWidth 8) (1000 + 1) 2 :=
  exists_of_decide (by decide)

/-! ### Past the window -/

/-- **A segment longer than the window overruns the buffer.**  After the
handshake and a 41-byte segment the window is 65494.  A 65495-byte segment whose
head lies in it is accepted whole: the copy writes its last byte to `buf[65535]`,
one past the end of `uint8_t buf[65535]`, and `rcv.wnd -= len` wraps to 65535,
so that the 65536 bytes appended, none of them received, read as an empty
buffer. -/
theorem payload_overruns_window (d : List (BitVec 8)) (hd : d.length = 65495) :
    ∃ s, run (fun _ => some 1500) (Sys.init 1)
        (handshake 0 ⟨0x0a000002, 80⟩ ⟨0x0a000005, 40000⟩ 1000 500 4096 ++
          [.segment ⟨1001, 501, flgAck ||| flgPsh, 4096, List.replicate 41 1, ⟨0x0a000005, 40000⟩,
            ⟨0x0a000002, 80⟩⟩ 0 true] ++
          [.segment ⟨1042, 501, flgAck ||| flgPsh, 4096, d, ⟨0x0a000005, 40000⟩, ⟨0x0a000002, 80⟩⟩ 0 true])
        = some s ∧
      (s.pcbs 0).state = .established ∧ (s.pcbs 0).rcv.wnd = 65535 ∧ (s.pcbs 0).buf bufSize = d.getD 65494 0 := by
  refine exists_run_append (p := fun s => s.lockFree && (s.pcbs 0).state == .established &&
    (s.pcbs 0).rcv == ⟨1042, 65494⟩ && (s.pcbs 0).snd == ⟨501, 501, 4096, 1001, 501⟩ &&
    tcpPcbSelect s.pcbs ⟨0x0a000002, 80⟩ (some ⟨0x0a000005, 40000⟩) == some 0) (by decide) ?_
  intro s hp
  simp only [Bool.and_eq_true, beq_iff_eq] at hp
  obtain ⟨⟨⟨⟨hl, hs⟩, hrcv⟩, hsnd⟩, hsel⟩ := hp
  have hseg : (TcpSegOut.received ⟨1042, 501, flgAck ||| flgPsh, 4096, d, ⟨0x0a000005, 40000⟩,
      ⟨0x0a000002, 80⟩⟩).seg = ⟨1042, 501, 65495, 4096⟩ := by
    simp only [TcpSegOut.received_seg, hd]; decide
  have hslot : arrivesSlot s.pcbs (TcpSegOut.received ⟨1042, 501, flgAck ||| flgPsh, 4096, d,
      ⟨0x0a000005, 40000⟩, ⟨0x0a000002, 80⟩⟩) = some 0 := by
    simp only [arrivesSlot, TcpSegOut.received_local, TcpSegOut.received_foreign, hsel, hs]; rfl
  refine ⟨_, by rw [run_singleton, step_segment 0 true hl (by rw [hd]; decide) (by dsimp only; decide)
    (by dsimp only; decide)], ?_⟩
  rw [arrive_pcbs_of_slot 0 true hslot, Function.update_same, tcpSegmentArrivesPcb_synchronized (.inr hs),
    arrivesSynchronized_text ⟨501, 501, 4096, 1001, 501⟩ hs (by rw [hrcv, hseg]; decide)
      (by simp only [TcpSegOut.received_flags]; decide) (by rw [hsnd, hseg]; decide) (by rw [TcpSegOut.received_len, hd]; decide)]
  simp only [TcpSegOut.received_len, TcpSegOut.received_data, hd, hs, hrcv, bufWrite]
  exact ⟨trivial, by decide, by rw [if_pos (by decide)]; rfl⟩

theorem payload_overruns_window_replicate :
    (List.replicate 65495 (1 : BitVec 8)).length = 65495 ∧
    ∃ s, run (fun _ => some 1500) (Sys.init 1)
        (handshake 0 ⟨0x0a000002, 80⟩ ⟨0x0a000005, 40000⟩ 1000 500 4096 ++
          [.segment ⟨1001, 501, flgAck ||| flgPsh, 4096, List.replicate 41 1, ⟨0x0a000005, 40000⟩,
            ⟨0x0a000002, 80⟩⟩ 0 true] ++
          [.segment ⟨1042, 501, flgAck ||| flgPsh, 4096, List.replicate 65495 1, ⟨0x0a000005, 40000⟩,
            ⟨0x0a000002, 80⟩⟩ 0 true])
        = some s ∧
      (s.pcbs 0).state = .established ∧ (s.pcbs 0).rcv.wnd = 65535 ∧
        (s.pcbs 0).buf bufSize = (List.replicate 65495 (1 : BitVec 8)).getD 65494 0 :=
  ⟨List.length_replicate _ _, payload_overruns_window _ (List.length_replicate _ _)⟩

end Microps.Tcp
