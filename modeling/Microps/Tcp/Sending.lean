import Microps.Tcp.Stack

/-!
# What `tcp_send` puts on the wire

What a connection has sent is read off the log of what left the stack.  From
its last SYN on, the segments of slot `i` that `ip_output` took with a payload
are the connection's data segments (`connSegs`).  For a thread, the buffer of
its last call, if that call is a `tcp_send`, together with the payload of the
segments it has emitted since, is `lastSend`.

`send_stream` proves, for every state reachable with defined behaviour,
whatever the interleaving of senders, sleeps, arrivals and interrupts: the data segments of a SYN_RECEIVED
or ESTABLISHED connection follow one another from `iss + 1` (`Consecutive`),
`snd.nxt` is `iss + 1` plus the bytes they carry, modulo 2^32, and every
`tcp_send` that returned `r ≥ 0` had emitted exactly the first `r` bytes of its
buffer (`SendsOk`).

As in `Sleep`, `SendExcept s t` is the invariant with the acting thread left
out; the updates keep it and each call ends by putting its thread back.

Below an MTU of 40, `mss = mtu - 40` wraps as a `size_t`, and one iteration of
the loop hands `tcp_output_segment` the whole buffer, which it copies past its
stack buffer: `send_overruns_segment_buffer` runs it on 65535 bytes, which
leave as a 19-byte datagram while `snd.nxt` moves on by 65535.
-/

namespace Microps.Tcp

variable {n : Nat} {route : BitVec 32 → Option (BitVec 16)}

open Sys

/-! ### The log -/

/-- Slot `i`'s data segments as the log grows by one entry: a SYN from the slot
starts them afresh, and a segment of the slot that `ip_output` took with a
payload is one more. -/
def connSegStep (i : Slot) (segs : List TcpSegOut) : Out n → List TcpSegOut
  | .seg (some j) _ o ok =>
    if j = i then
      if flgIsset o.flg flgSyn then [] else if ok && !o.data.isEmpty then segs ++ [o] else segs
    else segs
  | _ => segs

/-- The data segments slot `i` has sent since its last SYN. -/
def connSegs (i : Slot) (out : List (Out n)) : List TcpSegOut := out.foldl (connSegStep i) []

/-- The number of payload bytes of the segments. -/
def sentBytes : List TcpSegOut → Nat
  | [] => 0
  | o :: os => o.data.length + sentBytes os

/-- Segments each of which starts where the one before ended, the first at `start`. -/
def Consecutive : BitVec 32 → List TcpSegOut → Prop
  | _, [] => True
  | start, o :: os => o.seq = start ∧ Consecutive (start + BitVec.ofNat 32 o.data.length) os

/-- Thread `t`'s record as the log grows by one entry: a call of `t` starts it
afresh, with the buffer of a `tcp_send` and no byte sent yet; a segment `t`
emitted that `ip_output` took adds its payload. -/
def sendStep (t : Fin n) (r : Option (List (BitVec 8) × List (BitVec 8))) :
    Out n → Option (List (BitVec 8) × List (BitVec 8))
  | .call u (.send _ data) => if u = t then some (data, []) else r
  | .call u _ => if u = t then none else r
  | .seg _ (some u) o ok => if u = t ∧ ok = true then r.map fun p => (p.1, p.2 ++ o.data) else r
  | _ => r

/-- The buffer of thread `t`'s last call if that is a `tcp_send`, with the bytes
the call has emitted. -/
def lastSend (t : Fin n) (out : List (Out n)) : Option (List (BitVec 8) × List (BitVec 8)) :=
  out.foldl (sendStep t) none

/-- A return `r ≥ 0` of a `tcp_send` that has emitted `sent` of its buffer
`data` has `sent = data.take r`. -/
def RetOk (out : List (Out n)) : Out n → Prop
  | .ret t r _ => 0 ≤ r → ∀ data sent, lastSend t out = some (data, sent) → sent = data.take r.toNat
  | _ => True

/-- Every `tcp_send` that returned `r ≥ 0` had emitted, in the segments
`ip_output` took, exactly the first `r` bytes of its buffer. -/
def SendsOk (out : List (Out n)) : Prop := ∀ k o, out[k]? = some o → RetOk (out.take k) o

@[simp] theorem connSegs_append (i : Slot) (out : List (Out n)) (o : Out n) :
    connSegs i (out ++ [o]) = connSegStep i (connSegs i out) o := by
  simp [connSegs, List.foldl_append]

@[simp] theorem lastSend_append (t : Fin n) (out : List (Out n)) (o : Out n) :
    lastSend t (out ++ [o]) = sendStep t (lastSend t out) o := by
  simp [lastSend, List.foldl_append]

theorem sentBytes_append (os : List TcpSegOut) (o : TcpSegOut) :
    sentBytes (os ++ [o]) = sentBytes os + o.data.length := by
  induction os with
  | nil => simp [sentBytes]
  | cons o' os ih => rw [List.cons_append, sentBytes, sentBytes, ih]; omega

/-- A segment that starts where the others end extends them. -/
theorem consecutive_append {start : BitVec 32} {os : List TcpSegOut} {o : TcpSegOut}
    (h : Consecutive start os) (ho : o.seq = start + BitVec.ofNat 32 (sentBytes os)) :
    Consecutive start (os ++ [o]) := by
  induction os generalizing start with
  | nil => simpa [Consecutive, sentBytes] using ho
  | cons o' os ih =>
    refine ⟨h.1, ih h.2 ?_⟩
    rw [ho, sentBytes, BitVec.ofNat_add, BitVec.add_assoc]

theorem sendsOk_append {out : List (Out n)} {o : Out n} (h : SendsOk out) (ho : RetOk out o) :
    SendsOk (out ++ [o]) := by
  intro k o' hk
  rcases Nat.lt_or_ge k out.length with hlt | hge
  · rw [List.take_append_of_le_length hlt.le]
    exact h k o' (by rwa [List.getElem?_append_left hlt] at hk)
  · rw [List.getElem?_append_right hge] at hk
    obtain ⟨hk0, rfl⟩ : k - out.length = 0 ∧ o = o' := by
      cases h' : k - out.length <;> simp_all
    rw [show k = out.length by omega, List.take_append_of_le_length le_rfl, List.take_length]
    exact ho

/-- Segments that name no thread leave every thread's record. -/
theorem lastSend_append_seg (t : Fin n) (out : List (Out n)) (so : Option TcpSegOut) (j : Option Slot)
    (ok : Bool) : lastSend t (out ++ (so.map fun o => Out.seg j none o ok).toList) = lastSend t out := by
  cases so <;> simp [sendStep]

theorem sendsOk_append_seg {out : List (Out n)} {so : Option TcpSegOut} {j : Option Slot}
    {u : Option (Fin n)} {ok : Bool} (h : SendsOk out) :
    SendsOk (out ++ (so.map fun o => Out.seg j u o ok).toList) := by
  cases so
  · simpa using h
  · exact sendsOk_append h trivial

/-- An entry that changes no record: a segment without SYN that carries no
payload or that `ip_output` refused. -/
def Out.Inert : Out n → Prop
  | .seg _ _ o ok => flgIsset o.flg flgSyn = false ∧ (ok = false ∨ o.data = [])
  | _ => False

theorem connStep_inert {o : Out n} (h : o.Inert) (i : Slot) (segs : List TcpSegOut) :
    connSegStep i segs o = segs := by
  rcases o with _ | _ | ⟨_ | j, u, o, ok⟩ <;> simp only [Out.Inert] at h
  · rfl
  · obtain ⟨hs, hd⟩ := h
    simp only [connSegStep, hs]
    rcases hd with rfl | hd
    · simp
    · simp [hd]

theorem sendStep_inert {o : Out n} (h : o.Inert) (t : Fin n) (r : Option (List (BitVec 8) × List (BitVec 8))) :
    sendStep t r o = r := by
  rcases o with _ | _ | ⟨j, _ | u, o, ok⟩ <;> simp only [Out.Inert] at h
  · rfl
  · obtain ⟨-, hd⟩ := h
    simp only [sendStep]
    rcases hd with rfl | hd
    · simp
    · split <;> simp [hd]

/-! ### What an arrival sends -/

theorem establishedAck_nxt {snd snd' : TcpSnd} {seg : TcpSegmentInfo} (h : establishedAck snd seg = some snd') :
    snd'.nxt = snd.nxt := by
  unfold establishedAck at h
  split_ifs at h <;> cases h <;> rfl

theorem arrivesSynchronized_out (pcb : TcpPcb) (a : TcpArrival) {o : TcpSegOut}
    (h : (arrivesSynchronized pcb a).out = some o) : flgIsset o.flg flgSyn = false ∧ o.data = [] := by
  unfold arrivesSynchronized processAck at h
  dsimp only at h
  split at h
  · split at h <;> cases h; exact ⟨by simp only [tcpOutput_flg]; decide, rfl⟩
  split at h
  · cases h
  split at h
  · cases h; exact ⟨show flgIsset flgRst flgSyn = false by decide, rfl⟩
  split at h
  · cases h; exact ⟨by simp only [tcpOutput_flg]; decide, rfl⟩
  · unfold processText at h; split at h <;> cases h; exact ⟨by simp only [tcpOutput_flg]; decide, rfl⟩

/-- Live: SYN_RECEIVED or ESTABLISHED, a connection under way. -/
def Live (pcb : TcpPcb) : Prop := pcb.state = .synReceived ∨ pcb.state = .established

/-- **What an arrival does to the send sequence.**  A SYN at a LISTEN PCB starts
a connection with `snd.nxt = iss + 1` and is answered with a SYN; otherwise the
PCB keeps `snd.nxt` and `iss`, is live only if it was, and any answer carries no
SYN and no payload. -/
theorem tcpSegmentArrivesPcb_seq (pcb : TcpPcb) (a : TcpArrival) (rnd : BitVec 32) :
    ((tcpSegmentArrivesPcb pcb a rnd).pcb.snd.nxt = (tcpSegmentArrivesPcb pcb a rnd).pcb.iss + 1 ∧
      ∃ o, (tcpSegmentArrivesPcb pcb a rnd).out = some o ∧ flgIsset o.flg flgSyn = true) ∨
    ((Live (tcpSegmentArrivesPcb pcb a rnd).pcb → Live pcb) ∧
      (tcpSegmentArrivesPcb pcb a rnd).pcb.snd.nxt = pcb.snd.nxt ∧
      (tcpSegmentArrivesPcb pcb a rnd).pcb.iss = pcb.iss ∧
      ∀ o, (tcpSegmentArrivesPcb pcb a rnd).out = some o → flgIsset o.flg flgSyn = false ∧ o.data = []) := by
  rcases tcpSegmentArrivesPcb_cases pcb a rnd with ⟨-, h⟩ | ⟨hsync, h⟩ | h <;> rw [h]
  · unfold arrivesListen
    split_ifs
    · exact .inr ⟨id, rfl, rfl, by simp⟩
    · exact .inr ⟨id, rfl, rfl, fun o ho => by cases ho; exact ⟨show flgIsset flgRst flgSyn = false by decide, rfl⟩⟩
    · exact .inl ⟨rfl, _, rfl, by simp only [tcpOutput_flg]; decide⟩
    · exact .inr ⟨id, rfl, rfl, by simp⟩
  · refine .inr ⟨fun _ => hsync, ?_, ?_, fun o => arrivesSynchronized_out pcb a⟩
    · rcases arrivesSynchronized_cases pcb a with h | ⟨-, ⟨-, h⟩ | ⟨snd, hs, h⟩⟩ <;> rw [h]
      simpa using establishedAck_nxt hs
    · rcases arrivesSynchronized_cases pcb a with h | ⟨-, ⟨-, h⟩ | ⟨snd, hs, h⟩⟩ <;> rw [h]
      rw [processText_pcb]; split <;> rfl
  · exact .inr ⟨id, rfl, rfl, by simp⟩

/-! ### The invariant -/

/-- Slot `i`'s connection: its data segments follow one another from `iss + 1`,
and `snd.nxt` is `iss + 1` plus the bytes they carry. -/
def ConnOk (segs : List TcpSegOut) (pcb : TcpPcb) : Prop :=
  Live pcb → Consecutive (pcb.iss + 1) segs ∧ pcb.snd.nxt = pcb.iss + 1 + BitVec.ofNat 32 (sentBytes segs)

/-- What the log records of a thread in the middle of a call: a sender's buffer
with the bytes it has sent so far, and no `tcp_send` for the other sleepers. -/
def CallOk (r : Option (List (BitVec 8) × List (BitVec 8))) : Pc → Prop
  | .sendLoop _ data sent _ | .sendWait _ data sent _ => r = some (data, data.take sent)
  | .openWait .. | .recvWait .. => r = none
  | .idle => True

@[simp] theorem callOk_post (r : Option (List (BitVec 8) × List (BitVec 8))) (p : Pc) (w : Wake) :
    CallOk r (p.post w) ↔ CallOk r p := by
  cases p <;> rfl

structure SendInv (s : Sys n) : Prop where
  conn : ∀ i, ConnOk (connSegs i s.out) (s.pcbs i)
  call : ∀ t, CallOk (lastSend t s.out) (s.thr t)
  sends : SendsOk s.out

/-- `SendInv` with the acting thread `t` left out. -/
structure SendExcept (s : Sys n) (t : Fin n) : Prop where
  conn : ∀ i, ConnOk (connSegs i s.out) (s.pcbs i)
  call : ∀ u, u ≠ t → CallOk (lastSend u s.out) (s.thr u)
  sends : SendsOk s.out

section Operations

variable {s : Sys n} {t : Fin n}

theorem SendInv.except (h : SendInv s) (t : Fin n) : SendExcept s t :=
  ⟨h.conn, fun u _ => h.call u, h.sends⟩

theorem SendExcept.sendInv_setThr {p : Pc} (h : SendExcept s t) (hp : CallOk (lastSend t s.out) p) :
    SendInv (s.setThr t p) where
  conn := h.conn
  call u := by
    by_cases hu : u = t
    · subst hu; simpa using hp
    · simpa [Function.update_noteq hu] using h.call u hu
  sends := h.sends

theorem SendExcept.sendInv_ret {r : Int} {d : List (BitVec 8)} (h : SendExcept s t)
    (hr : RetOk s.out (.ret t r d)) : SendInv (s.ret t r d) where
  conn i := by simpa [connSegStep] using h.conn i
  call u := by
    by_cases hu : u = t
    · subst hu; simp [CallOk]
    · simpa [Function.update_noteq hu, sendStep] using h.call u hu
  sends := sendsOk_append h.sends hr

theorem SendExcept.setThr (h : SendExcept s t) (p : Pc) : SendExcept (s.setThr t p) t :=
  ⟨h.conn, fun u hu => by simpa [Function.update_noteq hu] using h.call u hu, h.sends⟩

theorem SendExcept.emit_inert {o : Out n} (h : SendExcept s t) (ho : o.Inert) : SendExcept (s.emit o) t where
  conn i := by simpa [connStep_inert ho] using h.conn i
  call u hu := by simpa [sendStep_inert ho] using h.call u hu
  sends := sendsOk_append h.sends (by rcases o with _ | _ | _ <;> trivial)

/-- The call of `t` enters the log: the record of every other thread stays. -/
theorem SendExcept.emitCall (h : SendExcept s t) (c : Call) : SendExcept (s.emit (.call t c)) t where
  conn i := by simpa [connSegStep] using h.conn i
  call u hu := by
    have hne : t ≠ u := Ne.symm hu
    cases c <;> simpa [sendStep, hne] using h.call u hu
  sends := sendsOk_append h.sends trivial

/-- A slot left neither SYN_RECEIVED nor ESTABLISHED has nothing to keep. -/
theorem SendExcept.setPcb_dead {i : Slot} {q : TcpPcb} (h : SendExcept s t) (hq : ¬Live q) :
    SendExcept (s.setPcb i q) t where
  conn j := by
    by_cases hj : j = i
    · subst hj; simp only [setPcb_pcbs, setPcb_out, Function.update_same]; exact fun hl => absurd hl hq
    · simpa [Function.update_noteq hj] using h.conn j
  call := h.call
  sends := h.sends

theorem SendExcept.setPcb_same {i : Slot} {q : TcpPcb} (h : SendExcept s t)
    (hl : Live q → Live (s.pcbs i)) (hn : q.snd.nxt = (s.pcbs i).snd.nxt) (hi : q.iss = (s.pcbs i).iss) :
    SendExcept (s.setPcb i q) t where
  conn j := by
    by_cases hj : j = i
    · subst hj; simp only [setPcb_pcbs, setPcb_out, Function.update_same]
      intro hq; rw [hn, hi]; exact h.conn j (hl hq)
    · simpa [Function.update_noteq hj] using h.conn j
  call := h.call
  sends := h.sends

theorem SendExcept.release {i : Slot} (h : SendExcept s t) : SendExcept (s.release i) t := by
  unfold Sys.release
  split
  · exact ⟨h.conn, fun u hu => by simp only [post_thr, post_out]; split <;> simp [h.call u hu], h.sends⟩
  · exact h.setPcb_dead (by simp [Live])

theorem SendExcept.closeRelease {i : Slot} (h : SendExcept s t) : SendExcept (s.closeRelease i) t :=
  (h.setPcb_dead (by simp [Live])).release

end Operations

theorem retOk_of_none {out : List (Out n)} {t : Fin n} {r : Int} {d : List (BitVec 8)}
    (hl : lastSend t out = none) : RetOk out (.ret t r d) := fun _ _ _ he => by rw [hl] at he; cases he

theorem retOk_neg {out : List (Out n)} {t : Fin n} {r : Int} {d : List (BitVec 8)} (hr : r < 0) :
    RetOk out (.ret t r d) :=
  fun h0 => absurd h0 (by omega)

/-! ### Function by function -/

section Functions

variable {s : Sys n} {t : Fin n} (h : SendExcept s t)
include h

theorem SendExcept.openCheck {i : Slot} {st : TcpPcbState} (hl : lastSend t s.out = none) :
    SendInv (openCheck s t i st) := by
  unfold Microps.Tcp.openCheck
  split
  · exact h.sendInv_setThr hl
  split
  · exact h.sendInv_ret (retOk_of_none hl)
  split
  · exact h.sendInv_setThr hl
  · exact h.closeRelease.sendInv_ret (retOk_neg (by decide))

theorem SendExcept.openCall {l : IpEndpoint} {f : Option IpEndpoint} {active : Bool}
    (hl : lastSend t s.out = none) : SendInv (openCall s t l f active) := by
  unfold Microps.Tcp.openCall
  split
  · exact h.sendInv_ret (retOk_neg (by decide))
  · have h' := h.setPcb_dead (i := ‹Slot›) (q := { s.pcbs ‹Slot› with state := .closed }) (by simp [Live])
    cases active with
    | true => exact h'.release.sendInv_ret (retOk_neg (by decide))
    | false => exact (h'.setPcb_dead (by simp [Live])).sendInv_setThr hl

theorem SendExcept.closeCall {id : Int} {ok : Bool} (hl : lastSend t s.out = none) :
    SendInv (closeCall s t id ok) := by
  unfold Microps.Tcp.closeCall
  split
  · exact h.sendInv_ret (retOk_of_none hl)
  · have ho : (Out.seg (some ‹Slot›) (some t) (tcpOutput (s.pcbs ‹Slot›) flgRst []) ok : Out n).Inert :=
      ⟨by simp only [tcpOutput_flg]; decide, .inr rfl⟩
    have h' := (h.emit_inert ho).release (i := ‹Slot›)
    exact h'.sendInv_ret (retOk_of_none (by simpa [sendStep_inert ho] using hl))

theorem SendExcept.sendRetry {i : Slot} {data : List (BitVec 8)} {sent : Nat}
    (hl : lastSend t s.out = some (data, data.take sent)) : SendInv (sendRetry route s t i data sent) := by
  unfold Microps.Tcp.sendRetry
  split
  · split
    · exact h.sendInv_ret (retOk_neg (by decide))
    · exact h.sendInv_setThr hl
  · exact h.sendInv_ret (retOk_neg (by decide))

theorem SendExcept.recvRetry {i : Slot} {size : Nat} (hl : lastSend t s.out = none) :
    SendInv (recvRetry s t i size) := by
  unfold Microps.Tcp.recvRetry
  dsimp only
  split
  · split
    · exact h.sendInv_setThr hl
    · have h' := h.setPcb_same (i := i) (q := (tcpReceiveTake (s.pcbs i) size).1) id rfl rfl
      exact h'.sendInv_ret (retOk_of_none hl)
  · exact h.sendInv_ret (retOk_of_none hl)

/-- An iteration of the loop of `tcp_send` that `ip_output` took: the segment
starts at `snd.nxt`, which moves on by its payload, and the payload is the next
`slen` bytes of the buffer. -/
theorem SendExcept.sendIter_ok {i : Slot} {data : List (BitVec 8)} {sent mss : Nat}
    (hl : lastSend t s.out = some (data, data.take sent)) :
    SendInv (((s.emit (.seg (some i) (some t) (sendSeg (s.pcbs i) data sent mss) true)).setPcb i
      (sendAdvance (s.pcbs i) (sendLen (s.pcbs i) data sent mss))).setThr t
        (.sendLoop i data (sent + sendLen (s.pcbs i) data sent mss) mss)) := by
  set o := sendSeg (s.pcbs i) data sent mss
  have hlen : o.data.length = sendLen (s.pcbs i) data sent mss := by
    simp only [o, sendSeg, tcpOutput, List.length_take, List.length_drop, sendLen]; omega
  have hseq : o.seq = (s.pcbs i).snd.nxt := rfl
  have hsyn : flgIsset o.flg flgSyn = false := by rw [sendSeg_flg]; decide
  refine SendExcept.sendInv_setThr ⟨fun j => ?_, fun u hu => ?_, sendsOk_append h.sends trivial⟩ ?_
  · rcases eq_or_ne j i with rfl | hj
    · simp only [ConnOk, setPcb_out, emit_out, connSegs_append, setPcb_pcbs, Function.update_same]
      intro hlive
      obtain ⟨hc, hn⟩ := h.conn j hlive
      simp only [connSegStep, if_pos, hsyn, Bool.true_and, sendAdvance, Bool.false_eq_true, if_false]
      split
      · refine ⟨consecutive_append hc (hseq.trans hn), ?_⟩
        rw [sentBytes_append, BitVec.ofNat_add, ← hlen, hn, BitVec.add_assoc]
      · rename_i he
        have hd : o.data = [] := List.isEmpty_iff.mp (by simpa using he)
        rw [← hlen, hd, List.length_nil, BitVec.add_zero]
        exact ⟨hc, hn⟩
    · simpa [Function.update_noteq hj, connSegStep, Ne.symm hj] using h.conn j
  · have hne : t ≠ u := Ne.symm hu
    simpa [sendStep, hne] using h.call u hu
  · simp [CallOk, sendStep, hl, o, sendSeg, tcpOutput, List.take_add]

theorem SendExcept.sendIter {i : Slot} {data : List (BitVec 8)} {sent mss : Nat} {ok : Bool}
    (hl : lastSend t s.out = some (data, data.take sent)) : SendInv (sendIter s t i data sent mss ok) := by
  unfold Microps.Tcp.sendIter
  dsimp only
  split
  · split
    · exact h.sendInv_setThr hl
    · split
      · subst ok; exact h.sendIter_ok hl
      · rename_i hok
        have ho : (Out.seg (some i) (some t) (sendSeg (s.pcbs i) data sent mss) ok : Out n).Inert :=
          ⟨by rw [sendSeg_flg]; decide, .inl (by simpa using hok)⟩
        have h' := (h.emit_inert ho).closeRelease (i := i)
        exact h'.sendInv_ret (retOk_neg (by decide))
  · exact h.sendInv_ret fun _ data' sent' he => by
      rw [hl, Option.some.injEq, Prod.mk.injEq] at he
      rw [← he.1, ← he.2, Int.toNat_ofNat]

theorem SendExcept.openResume {i : Slot} {st : TcpPcbState} {w : Wake} (hl : lastSend t s.out = none) :
    SendInv (openResume s t i st w) := by
  unfold Microps.Tcp.openResume
  dsimp only
  split
  · have h' := (h.setThr .idle).closeRelease (i := i)
    exact h'.sendInv_ret (retOk_neg (by decide))
  · exact (h.setThr .idle).openCheck hl

theorem SendExcept.sendResume {i : Slot} {data : List (BitVec 8)} {sent : Nat} {w : Wake}
    (hl : lastSend t s.out = some (data, data.take sent)) : SendInv (sendResume route s t i data sent w) := by
  unfold Microps.Tcp.sendResume
  split
  · refine h.sendInv_ret fun h0 data' sent' he => ?_
    rw [hl, Option.some.injEq, Prod.mk.injEq] at he
    split at h0
    · exact absurd h0 (by decide)
    · rw [← he.1, ← he.2, if_neg ‹_›, Int.toNat_ofNat]
  · exact h.sendRetry hl

theorem SendExcept.recvResume {i : Slot} {size : Nat} {w : Wake} (hl : lastSend t s.out = none) :
    SendInv (recvResume s t i size w) := by
  unfold Microps.Tcp.recvResume
  split
  · exact h.sendInv_ret (retOk_of_none hl)
  · exact h.recvRetry hl

end Functions

section Steps

variable {s : Sys n}

theorem SendExcept.callStep {t : Fin n} {ok : Bool} (h : SendExcept s t) (c : Call) :
    SendInv (callStep route (s.emit (.call t c)) t ok c) := by
  have h' := h.emitCall c
  cases c with
  | openRfc793 => exact h'.openCall (by simp [sendStep])
  | send id data =>
    simp only [Microps.Tcp.callStep]
    split
    · exact h'.sendInv_ret (retOk_neg (by decide))
    · exact h'.sendRetry (show _ = some (data, data.take 0) by simp [sendStep])
  | receive id size =>
    simp only [Microps.Tcp.callStep]
    split
    · exact h'.sendInv_ret (retOk_neg (by decide))
    · exact h'.recvRetry (by simp [sendStep])
  | close => exact h'.closeCall (by simp [sendStep])

/-- An arrival: the SYN|ACK of a LISTEN PCB starts its data segments afresh,
and nothing else it emits or changes touches a record. -/
theorem SendInv.arrive (h : SendInv s) (a : TcpArrival) (rnd : BitVec 32) (ok : Bool) :
    SendInv (Microps.Tcp.arrive s a rnd ok) := by
  cases hi : arrivesSlot s.pcbs a with
  | none =>
    refine ⟨fun j => ?_, fun t => ?_, ?_⟩ <;> rw [arrive_out_of_none rnd ok hi]
    · rw [arrive_pcbs_of_none rnd ok hi]
      cases arrivesNoPcb a <;> simpa [connSegStep] using h.conn j
    · rw [arrive_thr_of_none rnd ok hi, lastSend_append_seg]
      exact h.call t
    · exact sendsOk_append_seg h.sends
  | some i =>
    refine ⟨fun j => ?_, fun t => ?_, ?_⟩ <;> rw [arrive_out_of_slot rnd ok hi]
    · rw [arrive_pcbs_of_slot rnd ok hi]
      rcases eq_or_ne j i with rfl | hj
      · rw [Function.update_same]
        rcases tcpSegmentArrivesPcb_seq (s.pcbs j) a rnd with ⟨hn, o, ho, hsyn⟩ | ⟨hl, hn, hiss, hout⟩
        · rw [ho]
          intro _
          simp [connSegStep, hsyn, Consecutive, sentBytes, hn]
        · intro hlive
          rw [hn, hiss]
          cases ho : (tcpSegmentArrivesPcb (s.pcbs j) a rnd).out with
          | none => simpa using h.conn j (hl hlive)
          | some o =>
            obtain ⟨hsyn, hd⟩ := hout o ho
            simpa [connSegStep, hsyn, hd] using h.conn j (hl hlive)
      · rw [Function.update_noteq hj]
        cases (tcpSegmentArrivesPcb (s.pcbs i) a rnd).out <;> simpa [connSegStep, Ne.symm hj] using h.conn j
    · rw [lastSend_append_seg, arrive_thr_of_slot rnd ok hi]
      split <;> simp [h.call t]
    · exact sendsOk_append_seg h.sends

/-- `event_handler` only posts interrupts. -/
theorem SendInv.eventHandler (h : SendInv s) : SendInv (eventHandler s) where
  conn := h.conn
  call t := by
    simp only [Microps.Tcp.eventHandler]
    split
    · split <;> simp [h.call t]
    · exact h.call t
  sends := h.sends

/-- **Each step keeps the record of what was sent.** -/
theorem SendInv.step (h : SendInv s) {e : Event n} {s' : Sys n} (hs : step route s e = some s') :
    SendInv s' := by
  rcases step_cases hs with ⟨data, src, dst, rnd, ok, -, -, rfl⟩ | ⟨-, -, rfl⟩ | ⟨t, c, ok, -, -, -, rfl⟩ |
      ⟨t, ok, i, data, sent, mss, -, ht, rfl⟩ | ⟨t, ok, i, st, w, -, ht, -, -, rfl⟩ |
      ⟨t, ok, i, data, sent, w, -, ht, -, -, rfl⟩ | ⟨t, ok, i, size, w, -, ht, -, -, rfl⟩
  · cases tcpInput data src dst with
    | none => exact h
    | some a => exact h.arrive a rnd ok
  · exact h.eventHandler
  · exact (h.except t).callStep c
  all_goals have hc := h.call t; rw [ht] at hc
  · exact (h.except t).sendIter hc
  · exact (h.except t).openResume hc
  · exact (h.except t).sendResume hc
  · exact (h.except t).recvResume hc

theorem sendInv_of_reachable {ok : Sys n → Event n → Prop} {s : Sys n} (h : Reachable route ok s) :
    SendInv s := by
  induction h with
  | init => exact ⟨fun _ hl => by simp [Live, Sys.init] at hl, fun _ => trivial, fun _ _ hk => by
      simp [Sys.init] at hk⟩
  | step _ _ hs ih => exact ih.step hs

end Steps

/-- **What `tcp_send` puts on the wire.**  In every state reachable with
defined behaviour, the data segments of each SYN_RECEIVED or ESTABLISHED
connection follow one another from `iss + 1`, `snd.nxt` is `iss + 1` plus the
bytes they carry (modulo 2^32), and every `tcp_send` that returned `r ≥ 0` had
emitted exactly the first `r` bytes of its buffer, each once and in order. -/
theorem send_stream {s : Sys n} (h : Reachable route Defined s) :
    (∀ i, (s.pcbs i).state = .synReceived ∨ (s.pcbs i).state = .established →
      Consecutive ((s.pcbs i).iss + 1) (connSegs i s.out) ∧
      (s.pcbs i).snd.nxt = (s.pcbs i).iss + 1 + BitVec.ofNat 32 (sentBytes (connSegs i s.out))) ∧
    SendsOk s.out :=
  ⟨fun i => (sendInv_of_reachable h).conn i, (sendInv_of_reachable h).sends⟩

theorem send_stream_three_bytes :
    ∃ s, runIf (fun _ => some 1500) Defined (Sys.init 1)
        (handshake 0 ⟨0x0a000002, 80⟩ ⟨0x0a000005, 40000⟩ 1000 500 4096 ++
          [.run 0 true, .call 0 (.send 0 [1, 2, 3]) true, .run 0 true, .run 0 true]) = some s ∧
      s.out.getLast? = some (.ret 0 3 []) ∧
      (∀ i, (s.pcbs i).state = .synReceived ∨ (s.pcbs i).state = .established →
        Consecutive ((s.pcbs i).iss + 1) (connSegs i s.out) ∧
        (s.pcbs i).snd.nxt = (s.pcbs i).iss + 1 + BitVec.ofNat 32 (sentBytes (connSegs i s.out))) ∧
      SendsOk s.out := by
  obtain ⟨s, hs, hr⟩ := exists_of_decide (P := fun s : Sys 1 => s.out.getLast? = some (.ret 0 3 []))
    (o := runIf (fun _ => some 1500) Defined (Sys.init 1)
      (handshake 0 ⟨0x0a000002, 80⟩ ⟨0x0a000005, 40000⟩ 1000 500 4096 ++
        [.run 0 true, .call 0 (.send 0 [1, 2, 3]) true, .run 0 true, .run 0 true])) (by decide)
  exact ⟨s, hs, hr, send_stream (Reachable.init.runIf _ hs)⟩

/-! ### Below an MTU of 40 -/

/-- **Below an MTU of 40 `tcp_send` overruns `tcp_output_segment`.**  On a route
of MTU 39, `mss = mtu - 40` wraps to `2^64 - 1`.  After a handshake with a peer
window of 65535, the first iteration of `tcp_send` on 65535 bytes sends them
all: the 20 + 65535 bytes overrun the `IP_PAYLOAD_SIZE_MAX` bytes of
`tcp_output_segment`'s buffer (the step is not `Defined`), `total` wraps to 19,
and the datagram handed to `ip_output` is 19 bytes carrying none of the data,
while `snd.nxt` advances by 65535. -/
theorem send_overruns_segment_buffer (d : List (BitVec 8)) (hd : d.length = 65535) :
    ∃ s, run (fun _ => some 39) (Sys.init 1)
        (handshake 0 ⟨0x0a000002, 80⟩ ⟨0x0a000005, 40000⟩ 1000 500 65535 ++ [.run 0 true] ++
          [.call 0 (.send 0 d) true]) = some s ∧
      s.thr 0 = .sendLoop 0 d 0 (mssOf 39) ∧ ¬Defined s (.run 0 true) ∧
      ∃ s', step (fun _ => some 39) s (.run 0 true) = some s' ∧
        s'.out.getLast? = some (.seg (some 0) (some 0) (sendSeg (s.pcbs 0) d 0 (mssOf 39)) true) ∧
        (sendSeg (s.pcbs 0) d 0 (mssOf 39)).data = d ∧
        (tcpOutputSegment (sendSeg (s.pcbs 0) d 0 (mssOf 39))).length = 19 ∧
        (s'.pcbs 0).snd.nxt = (s.pcbs 0).snd.nxt + 65535 := by
  refine exists_run_append (p := fun s => s.lockFree && s.thr 0 == .idle &&
    (s.pcbs 0).state == .established && (s.pcbs 0).snd == ⟨501, 501, 65535, 1001, 501⟩ &&
    (s.pcbs 0).foreign == ⟨0x0a000005, 40000⟩) (by decide) ?_
  intro s hp
  simp only [Bool.and_eq_true, beq_iff_eq] at hp
  obtain ⟨⟨⟨⟨hl, ht⟩, hst⟩, hsnd⟩, hf⟩ := hp
  have hget : tcpPcbGet s.pcbs 0 = some 0 := by simp [tcpPcbGet, tcpPcbSize, hst]
  have hmss : mssOf 39 = 18446744073709551615 := rfl
  have hlen : sendLen (s.pcbs 0) d 0 18446744073709551615 = 65535 := by
    simp only [sendLen, sendCap, hsnd, hd]; rfl
  rw [hmss]
  let s₁ := (s.emit (.call 0 (.send 0 d))).setThr 0 (.sendLoop 0 d 0 18446744073709551615)
  have h₁ : step (fun _ => some 39) s (.call 0 (.send 0 d) true) = some s₁ := by
    simp only [step, hl, ht, and_self, if_true, callStep, emit_pcbs, hget, sendRetry, hst, s₁]
    rfl
  have hp₁ : s₁.pcbs = s.pcbs := rfl
  refine ⟨s₁, by rw [run_singleton, h₁], by simp [s₁], ?_, ?_⟩
  · simp only [Defined, defined, s₁, setThr_thr, Function.update_same, setThr_pcbs, emit_pcbs, hlen]
    decide
  · have hcap : sendCap (s.pcbs 0).snd ≠ 0 := by simp only [sendCap, hsnd]; decide
    refine ⟨_, by simp only [step, runStep, s₁, setThr_thr, Function.update_same]; rfl, ?_, ?_, ?_, ?_⟩
    · simp [sendIter, hp₁, hd, hcap]
    · simp [sendSeg, tcpOutput, hp₁, hlen, hd]
    · simp [tcpOutputSegment, sendSeg, tcpOutput, hp₁, hlen, hd, tcpHdrSize]
    · simp [sendIter, hp₁, hd, hcap, hlen, sendAdvance]

theorem send_overruns_segment_buffer_replicate :
    (List.replicate 65535 (1 : BitVec 8)).length = 65535 ∧
    ∃ s, run (fun _ => some 39) (Sys.init 1)
        (handshake 0 ⟨0x0a000002, 80⟩ ⟨0x0a000005, 40000⟩ 1000 500 65535 ++ [.run 0 true] ++
          [.call 0 (.send 0 (List.replicate 65535 1)) true]) = some s ∧
      s.thr 0 = .sendLoop 0 (List.replicate 65535 1) 0 (mssOf 39) ∧ ¬Defined s (.run 0 true) ∧
      ∃ s', step (fun _ => some 39) s (.run 0 true) = some s' ∧
        s'.out.getLast? =
          some (.seg (some 0) (some 0) (sendSeg (s.pcbs 0) (List.replicate 65535 1) 0 (mssOf 39)) true) ∧
        (sendSeg (s.pcbs 0) (List.replicate 65535 1) 0 (mssOf 39)).data = (List.replicate 65535 1) ∧
        (tcpOutputSegment (sendSeg (s.pcbs 0) (List.replicate 65535 1) 0 (mssOf 39))).length = 19 ∧
        (s'.pcbs 0).snd.nxt = (s.pcbs 0).snd.nxt + 65535 :=
  ⟨List.length_replicate _ _, send_overruns_segment_buffer _ (List.length_replicate _ _)⟩

end Microps.Tcp
