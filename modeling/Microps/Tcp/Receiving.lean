import Microps.Tcp.ReceiveBuffer
import Microps.Tcp.Sending
import Microps.Tcp.Peer
import Microps.Tcp.Sleep

/-!
# What `tcp_receive` returns

The receive side of `Sending`, over the whole stack.  What a slot's receivers
got is read off the log: a call of a thread names the slot it receives on
(`Call.recvSlot`), and a return to a thread whose last call receives on slot
`i` adds the bytes it returned; the slot's SYN|ACK starts the record afresh
(`recvLog`).

`receive_stream` proves, for every run in which each data segment reaches its
slot in order (`InOrderStep`, for a stream per peer endpoint and initial
sequence number), whatever the interleaving of receivers, senders, sleeps and
interrupts: for each SYN_RECEIVED or ESTABLISHED connection, the bytes
returned on it followed by the bytes buffered are its stream from `irs + 1` up
to `rcv.nxt`.  It lifts `delivered_arrivesSynchronized` and `delivered_receive`
of `ReceiveBuffer` from one connection to the stack.

As in `Sending`, `RecvExcept s t` is the invariant with the acting thread left
out; the updates keep it and each call ends by putting its thread back.

`receiver_woken_by_data` is the progress side: a receiver asleep with nothing
pending sits on an ESTABLISHED PCB with an empty buffer (`SleepInv`), and the
first data segment that the PCB accepts wakes it and is what it returns.
-/

namespace Microps.Tcp

variable {n : Nat} {route : BitVec 32 → Option (BitVec 16)}

open Sys

/-! ### The log -/

/-- The slot a `tcp_receive` call names, when its id is an index of `pcbs`. -/
def Call.recvSlot : Call → Option Slot
  | .receive id _ => if h : 0 ≤ id ∧ id < tcpPcbSize then some ⟨id.toNat, by omega⟩ else none
  | _ => none

/-- Slot `i`'s receive record as the log grows by one entry: each thread's last
call, as the slot it receives on; a SYN from the slot starts the bytes afresh,
and a return to a thread whose last call is a `tcp_receive` on the slot adds
the bytes returned. -/
def recvStep (i : Slot) (r : (Fin n → Option Slot) × List (BitVec 8)) :
    Out n → (Fin n → Option Slot) × List (BitVec 8)
  | .call t c => (Function.update r.1 t c.recvSlot, r.2)
  | .ret t _ data => (r.1, if r.1 t = some i then r.2 ++ data else r.2)
  | .seg (some j) _ o _ => if j = i ∧ flgIsset o.flg flgSyn = true then (r.1, []) else r
  | .seg none _ _ _ => r

/-- The slot each thread's last call receives on, and the bytes `tcp_receive`
returned on slot `i` since the slot's last SYN. -/
def recvLog (i : Slot) (out : List (Out n)) : (Fin n → Option Slot) × List (BitVec 8) :=
  out.foldl (recvStep i) (fun _ => none, [])

@[simp] theorem recvLog_append (i : Slot) (out : List (Out n)) (o : Out n) :
    recvLog i (out ++ [o]) = recvStep i (recvLog i out) o := by
  simp [recvLog, List.foldl_append]

theorem recvSlot_of_tcpPcbGet {pcbs : Slot → TcpPcb} {id : Int} {i : Slot} (size : Nat)
    (h : tcpPcbGet pcbs id = some i) : (Call.receive id size).recvSlot = some i := by
  unfold tcpPcbGet at h
  split_ifs at h with h₁
  cases h
  simp [Call.recvSlot, h₁]

/-- A segment that carries no SYN changes no record. -/
theorem recvLog_seg {i : Slot} (out : List (Out n)) {j : Option Slot} {u : Option (Fin n)} {o : TcpSegOut}
    {ok : Bool} (ho : flgIsset o.flg flgSyn = false) : recvLog i (out ++ [.seg j u o ok]) = recvLog i out := by
  rcases j with _ | j <;> simp [recvStep, ho]

/-! ### The invariant -/

/-- The slot a thread sleeps in `tcp_receive` on. -/
def Pc.recvSlot : Pc → Option Slot
  | .recvWait i _ _ => some i
  | _ => none

@[simp] theorem Pc.recvSlot_post (p : Pc) (w : Wake) : (p.post w).recvSlot = p.recvSlot := by
  cases p <;> rfl

/-- What the log records of a thread in the middle of a call: the slot of a
receiver, and no `tcp_receive` for the others. -/
def PendOk (r : Option Slot) (p : Pc) : Prop := p = .idle ∨ r = p.recvSlot

@[simp] theorem pendOk_post (r : Option Slot) (p : Pc) (w : Wake) : PendOk r (p.post w) ↔ PendOk r p := by
  cases p <;> simp [PendOk, Pc.post, Pc.recvSlot]

/-- Slot `i`'s receive side, for the peer streams `S`: when the slot is live, the
bytes returned on it since its SYN, then the bytes buffered, are the stream
`S foreign irs` of the connection from `irs + 1` up to `rcv.nxt`. -/
def RecvOk (S : IpEndpoint → BitVec 32 → BitVec 32 → BitVec 8) (d : List (BitVec 8)) (pcb : TcpPcb) : Prop :=
  Live pcb → Delivered (S pcb.foreign pcb.irs) (pcb.irs + 1) (pcb, d)

variable {S : IpEndpoint → BitVec 32 → BitVec 32 → BitVec 8}

structure RecvInv (S : IpEndpoint → BitVec 32 → BitVec 32 → BitVec 8) (s : Sys n) : Prop where
  conn : ∀ i, RecvOk S (recvLog i s.out).2 (s.pcbs i)
  pend : ∀ i t, PendOk ((recvLog i s.out).1 t) (s.thr t)

/-- `RecvInv` with the acting thread `t` left out. -/
structure RecvExcept (S : IpEndpoint → BitVec 32 → BitVec 32 → BitVec 8) (s : Sys n) (t : Fin n) : Prop where
  conn : ∀ i, RecvOk S (recvLog i s.out).2 (s.pcbs i)
  pend : ∀ i u, u ≠ t → PendOk ((recvLog i s.out).1 u) (s.thr u)

/-- A PCB with the receive side, endpoints and `irs` of a live one keeps its record. -/
theorem RecvOk.of_recv {d : List (BitVec 8)} {p q : TcpPcb} (h : RecvOk S d p) (hl : Live q → Live p)
    (hb : q.buf = p.buf) (hr : q.rcv = p.rcv) (hf : q.foreign = p.foreign) (hi : q.irs = p.irs) :
    RecvOk S d q := by
  intro hq
  obtain ⟨-, N, hN, hn⟩ := h (hl hq)
  refine ⟨?_, N, ?_, ?_⟩
  · rcases hq with h | h <;> simp [h]
  · rw [hb, hr, hf, hi]; exact hN
  · rw [hr, hi]; exact hn

section Operations

variable {s : Sys n} {t : Fin n}

theorem RecvInv.except (h : RecvInv S s) (t : Fin n) : RecvExcept S s t :=
  ⟨h.conn, fun i u _ => h.pend i u⟩

theorem RecvExcept.recvInv_setThr {p : Pc} (h : RecvExcept S s t) (hp : ∀ i, PendOk ((recvLog i s.out).1 t) p) :
    RecvInv S (s.setThr t p) where
  conn := h.conn
  pend i u := by
    by_cases hu : u = t
    · subst hu; simpa using hp i
    · simpa [Function.update_noteq hu] using h.pend i u hu

/-- A return without bytes ends the call of `t`. -/
theorem RecvExcept.recvInv_ret {r : Int} (h : RecvExcept S s t) : RecvInv S (s.ret t r []) where
  conn i := by simpa [recvStep] using h.conn i
  pend i u := by
    by_cases hu : u = t
    · subst hu; simp [PendOk]
    · simpa [Function.update_noteq hu, recvStep] using h.pend i u hu

theorem RecvExcept.setThr (h : RecvExcept S s t) (p : Pc) : RecvExcept S (s.setThr t p) t :=
  ⟨h.conn, fun i u hu => by simpa [Function.update_noteq hu] using h.pend i u hu⟩

/-- A segment that carries no SYN, or comes from no slot, changes no record. -/
theorem RecvExcept.emit_seg {j : Option Slot} {u : Option (Fin n)} {o : TcpSegOut} {ok : Bool}
    (h : RecvExcept S s t) (ho : flgIsset o.flg flgSyn = false) : RecvExcept S (s.emit (.seg j u o ok)) t := by
  exact ⟨fun i => by simpa only [emit_out, emit_pcbs, recvLog_seg _ ho] using h.conn i,
    fun i u hu => by simpa only [emit_out, emit_thr, recvLog_seg _ ho] using h.pend i u hu⟩

/-- The call of `t` enters the log: the record of every other thread stays. -/
theorem RecvExcept.emitCall (h : RecvExcept S s t) (c : Call) : RecvExcept S (s.emit (.call t c)) t where
  conn i := by simpa [recvStep] using h.conn i
  pend i u hu := by simpa [recvStep, Function.update_noteq hu] using h.pend i u hu

theorem RecvExcept.setPcb_dead {i : Slot} {q : TcpPcb} (h : RecvExcept S s t) (hq : ¬Live q) :
    RecvExcept S (s.setPcb i q) t where
  conn j := by
    by_cases hj : j = i
    · subst hj; simp only [setPcb_pcbs, setPcb_out, Function.update_same]; exact fun hl => absurd hl hq
    · simpa [Function.update_noteq hj] using h.conn j
  pend := h.pend

theorem RecvExcept.setPcb_same {i : Slot} {q : TcpPcb} (h : RecvExcept S s t) (hl : Live q → Live (s.pcbs i))
    (hb : q.buf = (s.pcbs i).buf) (hr : q.rcv = (s.pcbs i).rcv) (hf : q.foreign = (s.pcbs i).foreign)
    (hi : q.irs = (s.pcbs i).irs) : RecvExcept S (s.setPcb i q) t where
  conn j := by
    by_cases hj : j = i
    · subst hj; simp only [setPcb_pcbs, setPcb_out, Function.update_same]
      exact (h.conn j).of_recv hl hb hr hf hi
    · simpa [Function.update_noteq hj] using h.conn j
  pend := h.pend

theorem RecvExcept.release {i : Slot} (h : RecvExcept S s t) : RecvExcept S (s.release i) t := by
  unfold Sys.release
  split
  · exact ⟨h.conn, fun j u hu => by simp only [post_thr, post_out]; split <;> simp [h.pend j u hu]⟩
  · exact h.setPcb_dead (by simp [Live])

theorem RecvExcept.closeRelease {i : Slot} (h : RecvExcept S s t) : RecvExcept S (s.closeRelease i) t :=
  (h.setPcb_dead (by simp [Live])).release

/-- `tcp_receive` moves bytes from the head of an ESTABLISHED slot's buffer to
the slot's record. -/
theorem RecvExcept.recvTake {i : Slot} {size : Nat} {r : Int} (h : RecvExcept S s t)
    (hl : ∀ j, (recvLog j s.out).1 t = some i) (he : (s.pcbs i).state = .established)
    (hr : ¬bufSize - (s.pcbs i).rcv.wnd.toNat = 0) :
    RecvInv S ((s.setPcb i (tcpReceiveTake (s.pcbs i) size).1).ret t r (tcpReceiveTake (s.pcbs i) size).2) where
  conn j := by
    simp only [ret_pcbs, ret_out, setPcb_pcbs, setPcb_out, recvLog_append, recvStep, hl j]
    by_cases hj : j = i
    · subst hj
      have hd := delivered_receive size (h.conn j (.inr he))
      rw [connStep, if_pos ⟨he, by simp only [bufSize] at hr ⊢; omega⟩] at hd
      simpa [tcpReceiveTake] using fun _ : Live _ => hd
    · simpa [Function.update_noteq hj, Ne.symm hj] using h.conn j
  pend j u := by
    by_cases hu : u = t
    · subst hu; simp [PendOk]
    · simpa [Function.update_noteq hu, recvStep] using h.pend j u hu

end Operations

theorem recvLog_append_fst (i : Slot) (out : List (Out n)) (so : Option TcpSegOut) (j : Option Slot)
    (u : Option (Fin n)) (ok : Bool) :
    (recvLog i (out ++ (so.map fun o => Out.seg j u o ok).toList)).1 = (recvLog i out).1 := by
  rcases so with _ | o
  · simp
  · rcases j with _ | j <;> simp only [Option.map_some', Option.toList_some, recvLog_append, recvStep]
    split <;> rfl

theorem recvLog_append_snd {i : Slot} (out : List (Out n)) {so : Option TcpSegOut} {j : Option Slot}
    (u : Option (Fin n)) (ok : Bool) (h : ∀ o, so = some o → j = some i → flgIsset o.flg flgSyn = false) :
    (recvLog i (out ++ (so.map fun o => Out.seg j u o ok).toList)).2 = (recvLog i out).2 := by
  rcases so with _ | o
  · simp
  · rcases j with _ | j <;> simp only [Option.map_some', Option.toList_some, recvLog_append, recvStep]
    split
    · rename_i hc; rw [hc.1] at h; simp [h o rfl rfl] at hc
    · rfl

/-! ### Function by function -/

section Functions

variable {s : Sys n} {t : Fin n} (h : RecvExcept S s t)
include h

theorem RecvExcept.openCheck {i : Slot} {st : TcpPcbState} (hl : ∀ j, (recvLog j s.out).1 t = none) :
    RecvInv S (openCheck s t i st) := by
  unfold Microps.Tcp.openCheck
  split
  · exact h.recvInv_setThr fun j => .inr (hl j)
  split
  · exact h.recvInv_ret
  split
  · exact h.recvInv_setThr fun j => .inr (hl j)
  · exact h.closeRelease.recvInv_ret

theorem RecvExcept.openCall {l : IpEndpoint} {f : Option IpEndpoint} {active : Bool}
    (hl : ∀ j, (recvLog j s.out).1 t = none) : RecvInv S (openCall s t l f active) := by
  unfold Microps.Tcp.openCall
  split
  · exact h.recvInv_ret
  · have h' := h.setPcb_dead (i := ‹Slot›) (q := { s.pcbs ‹Slot› with state := .closed }) (by simp [Live])
    cases active with
    | true => exact h'.release.recvInv_ret
    | false => exact (h'.setPcb_dead (by simp [Live])).recvInv_setThr fun j => .inr (hl j)

theorem RecvExcept.closeCall {id : Int} {ok : Bool} : RecvInv S (closeCall s t id ok) := by
  unfold Microps.Tcp.closeCall
  split
  · exact h.recvInv_ret
  · exact (h.emit_seg (by simp only [tcpOutput_flg]; decide)).release.recvInv_ret

theorem RecvExcept.sendRetry {i : Slot} {data : List (BitVec 8)} {sent : Nat}
    (hl : ∀ j, (recvLog j s.out).1 t = none) : RecvInv S (sendRetry route s t i data sent) := by
  unfold Microps.Tcp.sendRetry
  split
  · split
    · exact h.recvInv_ret
    · exact h.recvInv_setThr fun j => .inr (hl j)
  · exact h.recvInv_ret

theorem RecvExcept.recvRetry {i : Slot} {size : Nat} (hl : ∀ j, (recvLog j s.out).1 t = some i) :
    RecvInv S (recvRetry s t i size) := by
  unfold Microps.Tcp.recvRetry
  dsimp only
  split
  · split
    · exact h.recvInv_setThr fun j => .inr (hl j)
    · exact h.recvTake hl ‹_› ‹_›
  · exact h.recvInv_ret

theorem RecvExcept.sendIter {i : Slot} {data : List (BitVec 8)} {sent mss : Nat} {ok : Bool}
    (hl : ∀ j, (recvLog j s.out).1 t = none) : RecvInv S (sendIter s t i data sent mss ok) := by
  unfold Microps.Tcp.sendIter
  dsimp only
  split
  · split
    · exact h.recvInv_setThr fun j => .inr (hl j)
    · have h' : RecvExcept S (s.emit (.seg (some i) (some t) (sendSeg (s.pcbs i) data sent mss) ok)) t :=
        h.emit_seg (by rw [sendSeg_flg]; decide)
      split
      · have hsyn : flgIsset (sendSeg (s.pcbs i) data sent mss).flg flgSyn = false := by
          rw [sendSeg_flg]; decide
        refine (h'.setPcb_same (i := i) (q := sendAdvance (s.pcbs i) (sendLen (s.pcbs i) data sent mss))
          id rfl rfl rfl rfl).recvInv_setThr fun j => .inr ?_
        rw [setPcb_out, emit_out, recvLog_seg _ hsyn, hl j]; rfl
      · exact h'.closeRelease.recvInv_ret
  · exact h.recvInv_ret

theorem RecvExcept.openResume {i : Slot} {st : TcpPcbState} {w : Wake}
    (hl : ∀ j, (recvLog j s.out).1 t = none) : RecvInv S (openResume s t i st w) := by
  unfold Microps.Tcp.openResume
  dsimp only
  split
  · exact (h.setThr .idle).closeRelease.recvInv_ret
  · exact (h.setThr .idle).openCheck hl

theorem RecvExcept.sendResume {i : Slot} {data : List (BitVec 8)} {sent : Nat} {w : Wake}
    (hl : ∀ j, (recvLog j s.out).1 t = none) : RecvInv S (sendResume route s t i data sent w) := by
  unfold Microps.Tcp.sendResume
  split
  · exact h.recvInv_ret
  · exact h.sendRetry hl

theorem RecvExcept.recvResume {i : Slot} {size : Nat} {w : Wake} (hl : ∀ j, (recvLog j s.out).1 t = some i) :
    RecvInv S (recvResume s t i size w) := by
  unfold Microps.Tcp.recvResume
  split
  · exact h.recvInv_ret
  · exact h.recvRetry hl

end Functions

/-! ### Arrivals and steps -/

theorem arrivesSynchronized_irs (pcb : TcpPcb) (a : TcpArrival) :
    (arrivesSynchronized pcb a).pcb.irs = pcb.irs := by
  rcases arrivesSynchronized_cases pcb a with h | ⟨-, ⟨-, h⟩ | ⟨snd, -, h⟩⟩ <;> rw [h]
  simp

/-- A LISTEN PCB moves only on a SYN without RST and ACK. -/
theorem arrivesListen_of_not_syn (pcb : TcpPcb) {a : TcpArrival} (rnd : BitVec 32)
    (h : ¬(flgIsset a.flags flgSyn = true ∧ flgIsset a.flags flgRst = false ∧ flgIsset a.flags flgAck = false)) :
    (arrivesListen pcb a rnd).pcb = pcb := by
  unfold arrivesListen
  split_ifs <;> simp_all

/-- **One arrival keeps the record of the slot it reaches**: a SYN at a LISTEN
PCB starts a connection with nothing delivered, and a segment in order at a
live PCB extends the stream. -/
theorem recvOk_arrives {pcb : TcpPcb} {a : TcpArrival} (rnd : BitVec 32) {i : Slot} {out : List (Out n)}
    (ok : Bool) (h : RecvOk S (recvLog i out).2 pcb) (ho : InOrder (S pcb.foreign pcb.irs) pcb a) :
    RecvOk S (recvLog i (out ++ ((tcpSegmentArrivesPcb pcb a rnd).out.map
      fun o => Out.seg (some i) none o ok).toList)).2 (tcpSegmentArrivesPcb pcb a rnd).pcb := by
  rcases tcpSegmentArrivesPcb_cases pcb a rnd with ⟨hl, he⟩ | ⟨hs, he⟩ | he <;> rw [he]
  · by_cases hsyn : flgIsset a.flags flgSyn = true ∧ flgIsset a.flags flgRst = false ∧
        flgIsset a.flags flgAck = false
    · obtain ⟨h1, h2, h3⟩ := hsyn
      have hd : Delivered (S a.foreign a.seg.seq) (a.seg.seq + 1) ((arrivesListen pcb a rnd).pcb, []) :=
        delivered_arrivesListen _ rnd h1 h2 h3
      have hsa : flgIsset (flgSyn ||| flgAck) flgSyn = true := by decide
      simp only [arrivesListen, h1, h2, h3] at hd ⊢
      intro _
      simpa [recvStep, hsa] using hd
    · rw [arrivesListen_of_not_syn pcb rnd hsyn]
      intro hq; rcases hq with hq | hq <;> (rw [hl] at hq; cases hq)
  · rw [recvLog_append_snd _ _ _ fun o ho _ => (arrivesSynchronized_out pcb a ho).1]
    intro _
    rw [(arrivesSynchronized_endpoints pcb a).2.1, arrivesSynchronized_irs]
    exact delivered_arrivesSynchronized hs (h hs) ho
  · simpa using h

section Steps

variable {s : Sys n}

theorem PendOk.eq {r : Option Slot} {p : Pc} (h : PendOk r p) (hp : p ≠ .idle) : r = p.recvSlot :=
  h.resolve_left hp

theorem RecvExcept.callStep {t : Fin n} {ok : Bool} (h : RecvExcept S s t) (c : Call) :
    RecvInv S (callStep route (s.emit (.call t c)) t ok c) := by
  have h' := h.emitCall c
  have hl : ∀ j, (recvLog j (s.emit (.call t c)).out).1 t = c.recvSlot := fun j => by simp [recvStep]
  cases c with
  | openRfc793 => exact h'.openCall hl
  | send id data =>
    simp only [Microps.Tcp.callStep]
    split
    · exact h'.recvInv_ret
    · exact h'.sendRetry hl
  | receive id size =>
    simp only [Microps.Tcp.callStep]
    split
    · exact h'.recvInv_ret
    · exact h'.recvRetry fun j => (hl j).trans (recvSlot_of_tcpPcbGet size ‹_›)
  | close => exact h'.closeCall

theorem RecvInv.arrive (h : RecvInv S s) {a : TcpArrival} (rnd : BitVec 32) (ok : Bool)
    (ho : ∀ i, arrivesSlot s.pcbs a = some i → InOrder (S (s.pcbs i).foreign (s.pcbs i).irs) (s.pcbs i) a) :
    RecvInv S (Microps.Tcp.arrive s a rnd ok) := by
  cases hi : arrivesSlot s.pcbs a with
  | none =>
    refine ⟨fun j => ?_, fun j t => ?_⟩ <;> rw [arrive_out_of_none rnd ok hi]
    · rw [arrive_pcbs_of_none rnd ok hi, recvLog_append_snd _ _ _ fun _ _ he => by cases he]
      exact h.conn j
    · rw [arrive_thr_of_none rnd ok hi, recvLog_append_fst]
      exact h.pend j t
  | some i =>
    refine ⟨fun j => ?_, fun j t => ?_⟩ <;> rw [arrive_out_of_slot rnd ok hi]
    · rw [arrive_pcbs_of_slot rnd ok hi]
      rcases eq_or_ne j i with rfl | hj
      · rw [Function.update_same]
        exact recvOk_arrives rnd ok (h.conn j) (ho j hi)
      · rw [Function.update_noteq hj, recvLog_append_snd _ _ _ fun _ _ he => absurd (Option.some.inj he).symm hj]
        exact h.conn j
    · rw [recvLog_append_fst, arrive_thr_of_slot rnd ok hi]
      split <;> simp [h.pend j t]

/-- `event_handler` only posts interrupts. -/
theorem RecvInv.eventHandler (h : RecvInv S s) : RecvInv S (eventHandler s) where
  conn := h.conn
  pend j t := by
    simp only [Microps.Tcp.eventHandler]
    split
    · split <;> simp [h.pend j t]
    · exact h.pend j t

/-- Every data segment that reaches a live slot arrives in order for the stream
of the slot's connection. -/
def inOrderStep (S : IpEndpoint → BitVec 32 → BitVec 32 → BitVec 8) (s : Sys n) : Event n → Bool
  | .input data src dst _ _ =>
    match tcpInput data src dst with
    | some a =>
      match arrivesSlot s.pcbs a with
      | some i => decide (InOrder (S (s.pcbs i).foreign (s.pcbs i).irs) (s.pcbs i) a)
      | none => true
    | none => true
  | _ => true

/-- Runs in which every data segment arrives in order. -/
def InOrderStep (S : IpEndpoint → BitVec 32 → BitVec 32 → BitVec 8) (s : Sys n) (e : Event n) : Prop :=
  inOrderStep S s e = true

instance (s : Sys n) (e : Event n) : Decidable (InOrderStep S s e) := inferInstanceAs (Decidable (_ = true))

/-- **Each step keeps the record of what was received.** -/
theorem RecvInv.step (h : RecvInv S s) {e : Event n} {s' : Sys n} (he : InOrderStep S s e)
    (hs : step route s e = some s') : RecvInv S s' := by
  rcases step_cases hs with ⟨data, src, dst, rnd, ok, rfl, -, rfl⟩ | ⟨-, -, rfl⟩ | ⟨t, c, ok, -, -, -, rfl⟩ |
      ⟨t, ok, i, data, sent, mss, -, ht, rfl⟩ | ⟨t, ok, i, st, w, -, ht, -, -, rfl⟩ |
      ⟨t, ok, i, data, sent, w, -, ht, -, -, rfl⟩ | ⟨t, ok, i, size, w, -, ht, -, -, rfl⟩
  · cases ha : tcpInput data src dst with
    | none => exact h
    | some a =>
      refine h.arrive rnd ok fun i hi => ?_
      simpa [InOrderStep, inOrderStep, ha, hi] using he
  · exact h.eventHandler
  · exact (h.except t).callStep c
  all_goals have hc := fun j => (h.pend j t).eq (by rw [ht]; exact Pc.noConfusion)
  all_goals simp only [ht, Pc.recvSlot] at hc
  · exact (h.except t).sendIter hc
  · exact (h.except t).openResume hc
  · exact (h.except t).sendResume hc
  · exact (h.except t).recvResume hc

theorem recvInv_of_reachable (h : Reachable route (InOrderStep S) s) : RecvInv S s := by
  induction h with
  | init => exact ⟨fun _ hl => by simp [Live, Sys.init] at hl, fun _ _ => .inl rfl⟩
  | step _ he hs ih => exact ih.step he hs

end Steps

theorem lockFree_arrive (s : Sys n) (a : TcpArrival) (rnd : BitVec 32) (ok : Bool) :
    (arrive s a rnd ok).lockFree = s.lockFree := by
  have h : ∀ u, ((arrive s a rnd ok).thr u).inLoop = (s.thr u).inLoop := fun u => by
    cases hi : arrivesSlot s.pcbs a with
    | none => rw [arrive_thr_of_none rnd ok hi]
    | some i => rw [arrive_thr_of_slot rnd ok hi]; split <;> simp
  simp only [lockFree, h]

/-- The first `m` bytes of a buffer a payload was copied to the front of. -/
theorem bufRead_bufWrite_zero (buf : Nat → BitVec 8) (data : List (BitVec 8)) (m : Nat) :
    bufRead (bufWrite buf 0 data data.length) (min m data.length) = data.take m := by
  have h := bufRead_bufWrite buf 0 data
  rw [Nat.zero_add] at h
  rw [bufRead_le (Nat.min_le_right _ _), h]
  simp [bufRead]

/-- **Data wakes a receiver and reaches it.**  In every state reachable with
defined behaviour, a thread asleep in `tcp_receive` with nothing pending has an ESTABLISHED PCB with
an empty buffer.  A segment that reaches that PCB, is acceptable, carries an
ACK that is not ahead of `snd.nxt` and a payload that fits the buffer, wakes
the thread, and the thread's next step returns the first `min(size, len)`
bytes of the payload. -/
theorem receiver_woken_by_data {s : Sys n} {t : Fin n} {i : Slot} {size : Nat} {data : List (BitVec 8)}
    {src dst : BitVec 32} {a : TcpArrival} {snd : TcpSnd} (rnd : BitVec 32) (ok ok' : Bool)
    (hr : Reachable route Defined s) (hl : s.lockFree = true) (ht : s.thr t = .recvWait i size .none)
    (ha : tcpInput data src dst = some a) (hi : arrivesSlot s.pcbs a = some i)
    (hacc : segAcceptable (s.pcbs i).rcv a.seg = true) (hack : flgIsset a.flags flgAck = true)
    (hsnd : establishedAck (s.pcbs i).snd a.seg = some snd) (hlen : a.len ≠ 0) (hdl : a.data.length = a.len)
    (hw : a.len ≤ bufSize) :
    ∃ s₁ s₂, step route s (.input data src dst rnd ok) = some s₁ ∧ step route s₁ (.run t ok') = some s₂ ∧
      s₂.out.getLast? = some (.ret t (min size a.len) (a.data.take size)) ∧ s₂.thr t = .idle := by
  have hth := (sleepInv_of_reachable hr).thr t
  rw [ht] at hth
  obtain ⟨hest, hwnd⟩ := hth.2.resolve_left (by decide)
  have hfit : ¬(s.pcbs i).rcv.wnd.toNat < a.len := by rw [hwnd]; omega
  have hA : tcpSegmentArrivesPcb (s.pcbs i) a rnd =
      ⟨(arrivesSynchronized (s.pcbs i) a).pcb, some (tcpOutput (arrivesSynchronized (s.pcbs i) a).pcb flgAck []),
        true, false⟩ := by
    rw [tcpSegmentArrivesPcb_synchronized (.inr hest)]
    simp [arrivesSynchronized, processAck, hacc, hack, hest, hsnd, processText, hlen, hfit]
  have hP := arrivesSynchronized_text snd hest hacc hack hsnd hlen
  have ht₁ : (arrive s a rnd ok).thr t = .recvWait i size .wakeup := by
    rw [arrive_thr_of_slot rnd ok hi, hA]; simp [ht, Pc.waitsOn, Pc.post, Wake.post]
  have hl₁ : (arrive s a rnd ok).lockFree = true := (lockFree_arrive s a rnd ok).trans hl
  have hp₁ : (arrive s a rnd ok).pcbs i = (arrivesSynchronized (s.pcbs i) a).pcb := by
    rw [arrive_pcbs_of_slot rnd ok hi, hA, Function.update_same]
  have hrem : bufSize - ((s.pcbs i).rcv.wnd - BitVec.ofNat 16 a.len).toNat = a.len := by
    rw [BitVec.toNat_sub, BitVec.toNat_ofNat]; simp only [bufSize] at hwnd hw ⊢; omega
  refine ⟨arrive s a rnd ok, recvResume (arrive s a rnd ok) t i size .wakeup, by simp [step, hl, ha],
    by simp [step, runStep, ht₁, hl₁], ?_, ?_⟩
  all_goals simp only [recvResume, recvRetry, hp₁, hP, hest, hrem, hlen, tcpReceiveTake, hwnd]
  · simp [bufSize, ← hdl, bufRead_bufWrite_zero]
  · simp

/-- After the handshake a receiver asks for 10 bytes and sleeps; the peer sends
two, and the receiver returns them. -/
theorem receiver_woken_by_data_two_bytes :
    ∃ s s₁ s₂, runIf (fun _ => some 1500) Defined (Sys.init 1)
        (handshake 0 ⟨0x0a000002, 80⟩ ⟨0x0a000005, 40000⟩ 1000 500 4096 ++
          [.run 0 true, .call 0 (.receive 0 10) true]) = some s ∧
      s.thr 0 = .recvWait 0 10 .none ∧
      step (fun _ => some 1500) s
        (.segment ⟨1001, 501, flgAck ||| flgPsh, 4096, [7, 8], ⟨0x0a000005, 40000⟩, ⟨0x0a000002, 80⟩⟩ 0 true) =
        some s₁ ∧
      step (fun _ => some 1500) s₁ (.run 0 true) = some s₂ ∧
      s₂.out.getLast? = some (.ret 0 2 [7, 8]) ∧ s₂.thr 0 = .idle := by
  let o : TcpSegOut := ⟨1001, 501, flgAck ||| flgPsh, 4096, [7, 8], ⟨0x0a000005, 40000⟩, ⟨0x0a000002, 80⟩⟩
  obtain ⟨s, hs, ht, hl, ha, hi, hacc, hsnd⟩ := exists_of_decide
    (P := fun s : Sys 1 => s.thr 0 = .recvWait 0 10 .none ∧ s.lockFree = true ∧
      tcpInput (tcpOutputSegment o) o.local.addr o.foreign.addr = some o.received ∧
      arrivesSlot s.pcbs o.received = some 0 ∧ segAcceptable (s.pcbs 0).rcv o.received.seg = true ∧
      (establishedAck (s.pcbs 0).snd o.received.seg).isSome = true)
    (o := runIf (fun _ => some 1500) Defined (Sys.init 1)
      (handshake 0 ⟨0x0a000002, 80⟩ ⟨0x0a000005, 40000⟩ 1000 500 4096 ++
        [.run 0 true, .call 0 (.receive 0 10) true])) (by decide)
  obtain ⟨snd, hsnd⟩ := Option.isSome_iff_exists.mp hsnd
  obtain ⟨s₁, s₂, h₁, h₂, hout, hthr⟩ :=
    receiver_woken_by_data 0 true true (Reachable.init.runIf _ hs) hl ht ha hi hacc (by decide) hsnd (by decide) rfl
      (by decide)
  exact ⟨s, s₁, s₂, hs, ht, h₁, h₂, by rw [hout]; decide, hthr⟩

end Microps.Tcp
