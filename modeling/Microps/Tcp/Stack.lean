import Microps.Tcp.Arrives
import Mathlib.Data.Fintype.Basic

/-!
# The stack: user calls, arrivals and the scheduler

The whole TCP layer runs under one mutex.  A user call runs from
`mutex_lock` to its return or to a `sched_sleep`, which drops the mutex; the
only stretch a thread holds the mutex across is the loop of `tcp_send`, one
iteration a step.  A state (`Sys n`) is the PCB table, the place of each of `n`
user threads (`Pc`) and what has left the stack (`Out`): the calls and their
results, and every segment handed to `ip_output` with its result.

`sched_ctx_*` and `sched_sleep` are in the platform layer, which is not among
the sources; they are modelled from the spec (§4.3, §5).  A sleeping thread
waits on the slot of its PCB; a wakeup or an interrupt posted to the slot is
pending for it until it runs again (`Wake`), an interrupt winning over a
wakeup; the context reports a waiter while a thread sleeps on the slot.

`step route s e` is the state after event `e`, or `none` where `e` cannot
happen: a thread that is not where `e` needs it, or the mutex held by the
thread in `tcp_send`'s loop.  `route` is `ip_route_get_iface` followed by the
device's MTU.  The `ok` of an event is what `ip_output` returns to the segment
the step emits, and `rnd` is `random()`, which the model lets range over every
32-bit value although `random()` returns less than `2^31`.

Two steps copy past a buffer, which C leaves undefined: an arrival whose
payload is longer than `rcv.wnd`, and an iteration of `tcp_send` below an MTU
of 40.  `step` computes them too, but not what they overwrite, and `Defined`
marks the steps that copy within bounds: `Reachable route Defined` is the
states the stack reaches with defined behaviour, and what is proved of the
stack's invariants is proved of those.
-/

namespace Microps.Tcp

/-- What is pending for a thread asleep in `sched_sleep`. -/
inductive Wake
  | none | wakeup | interrupt
  deriving DecidableEq, Repr

/-- Post `w` on top of what is pending: an interrupt is not undone by a wakeup. -/
def Wake.post (p w : Wake) : Wake := if p = .interrupt then .interrupt else w

/-- A user call with its arguments. -/
inductive Call
  | openRfc793 («local» : IpEndpoint) (foreign : Option IpEndpoint) (active : Bool)
  | send (id : Int) (data : List (BitVec 8))
  | receive (id : Int) (size : Nat)
  | close (id : Int)
  deriving DecidableEq, Repr

/-- Where a user thread is: outside the stack, asleep in the wait of
`tcp_open_rfc793` (with the state it recorded), of `tcp_send` (with the bytes
sent so far) or of `tcp_receive`, or inside the loop of `tcp_send`. -/
inductive Pc
  | idle
  | openWait (i : Slot) (state : TcpPcbState) (w : Wake)
  | sendWait (i : Slot) (data : List (BitVec 8)) (sent : Nat) (w : Wake)
  | sendLoop (i : Slot) (data : List (BitVec 8)) (sent : Nat) (mss : Nat)
  | recvWait (i : Slot) (size : Nat) (w : Wake)
  deriving DecidableEq

/-- The slot a thread sleeps on. -/
def Pc.waitsOn : Pc → Option Slot
  | .openWait i _ _ | .sendWait i _ _ _ | .recvWait i _ _ => some i
  | _ => none

/-- The thread is in `tcp_send`'s loop and holds the mutex. -/
def Pc.inLoop : Pc → Bool
  | .sendLoop .. => true
  | _ => false

/-- Post `w` to a sleeping thread. -/
def Pc.post (p : Pc) (w : Wake) : Pc :=
  match p with
  | .openWait i st w' => .openWait i st (w'.post w)
  | .sendWait i d n w' => .sendWait i d n (w'.post w)
  | .recvWait i z w' => .recvWait i z (w'.post w)
  | p => p

/-- What leaves the stack. -/
inductive Out (n : Nat)
  | call (t : Fin n) (c : Call)
  | ret (t : Fin n) (r : Int) (data : List (BitVec 8))
  | seg (i : Option Slot) (t : Option (Fin n)) (o : TcpSegOut) (ok : Bool)
  deriving DecidableEq

/-- The state of the stack with `n` user threads. -/
structure Sys (n : Nat) where
  pcbs : Slot → TcpPcb
  thr : Fin n → Pc
  out : List (Out n)

/-- The start: every slot zero, every thread outside the stack. -/
def Sys.init (n : Nat) : Sys n := ⟨fun _ => TcpPcb.zero, fun _ => .idle, []⟩

/-- An event: a segment from IP, the external event, a user call, or a thread
going on (a sleeper leaving `sched_sleep`, or one iteration of `tcp_send`'s loop). -/
inductive Event (n : Nat)
  | input (data : List (BitVec 8)) (src dst : BitVec 32) (rnd : BitVec 32) (ok : Bool)
  | interrupt
  | call (t : Fin n) (c : Call) (ok : Bool)
  | run (t : Fin n) (ok : Bool)

variable {n : Nat}

namespace Sys

/-- No thread holds the mutex. -/
def lockFree (s : Sys n) : Bool := decide (∀ t, (s.thr t).inLoop = false)

/-- Some thread sleeps on slot `i`. -/
def hasWaiter (s : Sys n) (i : Slot) : Bool := decide (∃ t, (s.thr t).waitsOn = some i)

def setPcb (s : Sys n) (i : Slot) (p : TcpPcb) : Sys n := { s with pcbs := Function.update s.pcbs i p }

def setThr (s : Sys n) (t : Fin n) (p : Pc) : Sys n := { s with thr := Function.update s.thr t p }

/-- Append to what has left the stack. -/
def emit (s : Sys n) (o : Out n) : Sys n := { s with out := s.out ++ [o] }

/-- `sched_wakeup` or `sched_interrupt` on the context of slot `i`. -/
def post (s : Sys n) (i : Slot) (w : Wake) : Sys n :=
  { s with thr := fun t => if (s.thr t).waitsOn = some i then (s.thr t).post w else s.thr t }

/-- Thread `t` returns `r` (and the bytes copied out). -/
def ret (s : Sys n) (t : Fin n) (r : Int) (data : List (BitVec 8)) : Sys n :=
  (s.setThr t .idle).emit (.ret t r data)

/-- `tcp_pcb_release`: with a waiter, wake the waiters and keep the slot;
otherwise zero it. -/
def release (s : Sys n) (i : Slot) : Sys n :=
  if s.hasWaiter i then s.post i .wakeup else s.setPcb i TcpPcb.zero

/-- `pcb->state = TCP_PCB_STATE_CLOSED` followed by `tcp_pcb_release`. -/
def closeRelease (s : Sys n) (i : Slot) : Sys n :=
  (s.setPcb i { s.pcbs i with state := .closed }).release i

@[simp] theorem setPcb_pcbs (s : Sys n) (i : Slot) (p : TcpPcb) :
    (s.setPcb i p).pcbs = Function.update s.pcbs i p := rfl
@[simp] theorem setPcb_thr (s : Sys n) (i : Slot) (p : TcpPcb) : (s.setPcb i p).thr = s.thr := rfl
@[simp] theorem setPcb_out (s : Sys n) (i : Slot) (p : TcpPcb) : (s.setPcb i p).out = s.out := rfl
@[simp] theorem setThr_pcbs (s : Sys n) (t : Fin n) (p : Pc) : (s.setThr t p).pcbs = s.pcbs := rfl
@[simp] theorem setThr_thr (s : Sys n) (t : Fin n) (p : Pc) :
    (s.setThr t p).thr = Function.update s.thr t p := rfl
@[simp] theorem setThr_out (s : Sys n) (t : Fin n) (p : Pc) : (s.setThr t p).out = s.out := rfl
@[simp] theorem emit_pcbs (s : Sys n) (o : Out n) : (s.emit o).pcbs = s.pcbs := rfl
@[simp] theorem emit_thr (s : Sys n) (o : Out n) : (s.emit o).thr = s.thr := rfl
@[simp] theorem emit_out (s : Sys n) (o : Out n) : (s.emit o).out = s.out ++ [o] := rfl
@[simp] theorem post_pcbs (s : Sys n) (i : Slot) (w : Wake) : (s.post i w).pcbs = s.pcbs := rfl
@[simp] theorem post_thr (s : Sys n) (i : Slot) (w : Wake) (t : Fin n) :
    (s.post i w).thr t = if (s.thr t).waitsOn = some i then (s.thr t).post w else s.thr t := rfl
@[simp] theorem post_out (s : Sys n) (i : Slot) (w : Wake) : (s.post i w).out = s.out := rfl
@[simp] theorem ret_pcbs (s : Sys n) (t : Fin n) (r : Int) (d : List (BitVec 8)) :
    (s.ret t r d).pcbs = s.pcbs := rfl
@[simp] theorem ret_thr (s : Sys n) (t : Fin n) (r : Int) (d : List (BitVec 8)) :
    (s.ret t r d).thr = Function.update s.thr t .idle := rfl
@[simp] theorem ret_out (s : Sys n) (t : Fin n) (r : Int) (d : List (BitVec 8)) :
    (s.ret t r d).out = s.out ++ [.ret t r d] := rfl

@[simp] theorem release_out (s : Sys n) (i : Slot) : (s.release i).out = s.out := by
  unfold release; split <;> rfl
@[simp] theorem closeRelease_out (s : Sys n) (i : Slot) : (s.closeRelease i).out = s.out := by
  simp [closeRelease]

end Sys

open Sys

/-! ### Arrivals and the external event -/

/-- `tcp_segment_arrives` on the table. -/
def arrive (s : Sys n) (a : TcpArrival) (rnd : BitVec 32) (ok : Bool) : Sys n :=
  match arrivesSlot s.pcbs a with
  | none =>
    match arrivesNoPcb a with
    | none => s
    | some o => s.emit (.seg none none o ok)
  | some i =>
    let r := tcpSegmentArrivesPcb (s.pcbs i) a rnd
    let s := s.setPcb i r.pcb
    let s := if r.wakeup then s.post i .wakeup else s
    match r.out with
    | none => s
    | some o => s.emit (.seg (some i) none o ok)

theorem arrive_pcbs_of_slot {s : Sys n} {a : TcpArrival} {i : Slot} (rnd : BitVec 32) (ok : Bool)
    (h : arrivesSlot s.pcbs a = some i) :
    (arrive s a rnd ok).pcbs = Function.update s.pcbs i (tcpSegmentArrivesPcb (s.pcbs i) a rnd).pcb := by
  simp only [arrive, h]
  split <;> split <;> simp

theorem arrive_thr_of_slot {s : Sys n} {a : TcpArrival} {i : Slot} (rnd : BitVec 32) (ok : Bool)
    (h : arrivesSlot s.pcbs a = some i) (t : Fin n) :
    (arrive s a rnd ok).thr t =
      if (tcpSegmentArrivesPcb (s.pcbs i) a rnd).wakeup ∧ (s.thr t).waitsOn = some i then
        (s.thr t).post .wakeup
      else s.thr t := by
  simp only [arrive, h]
  split <;> split <;> simp_all

theorem arrive_thr_of_none {s : Sys n} {a : TcpArrival} (rnd : BitVec 32) (ok : Bool)
    (h : arrivesSlot s.pcbs a = none) : (arrive s a rnd ok).thr = s.thr := by
  simp only [arrive, h]
  split <;> rfl

theorem arrive_out_of_slot {s : Sys n} {a : TcpArrival} {i : Slot} (rnd : BitVec 32) (ok : Bool)
    (h : arrivesSlot s.pcbs a = some i) :
    (arrive s a rnd ok).out =
      s.out ++ ((tcpSegmentArrivesPcb (s.pcbs i) a rnd).out.map fun o => .seg (some i) none o ok).toList := by
  simp only [arrive, h]
  split <;> split <;> simp_all

theorem arrive_out_of_none {s : Sys n} {a : TcpArrival} (rnd : BitVec 32) (ok : Bool)
    (h : arrivesSlot s.pcbs a = none) :
    (arrive s a rnd ok).out = s.out ++ ((arrivesNoPcb a).map fun o => .seg none none o ok).toList := by
  simp only [arrive, h]
  split <;> simp_all

theorem arrive_pcbs_of_none {s : Sys n} {a : TcpArrival} (rnd : BitVec 32) (ok : Bool)
    (h : arrivesSlot s.pcbs a = none) : (arrive s a rnd ok).pcbs = s.pcbs := by
  simp only [arrive, h]
  split <;> rfl

/-- `event_handler`: interrupt the sleepers on every slot that is not FREE. -/
def eventHandler (s : Sys n) : Sys n :=
  { s with thr := fun t => match (s.thr t).waitsOn with
    | some i => if (s.pcbs i).state = .free then s.thr t else (s.thr t).post .interrupt
    | none => s.thr t }

/-! ### User calls -/

/-- The wait loop of `tcp_open_rfc793` after `sched_sleep` returned 0. -/
def openCheck (s : Sys n) (t : Fin n) (i : Slot) (st : TcpPcbState) : Sys n :=
  if (s.pcbs i).state = st then s.setThr t (.openWait i st .none)
  else if (s.pcbs i).state = .established then s.ret t i []
  else if (s.pcbs i).state = .synReceived then s.setThr t (.openWait i .synReceived .none)
  else (s.closeRelease i).ret t (-1) []

/-- `tcp_open_rfc793`: allocate, then LISTEN and sleep; active open is refused. -/
def openCall (s : Sys n) (t : Fin n) («local» : IpEndpoint) (foreign : Option IpEndpoint)
    (active : Bool) : Sys n :=
  match tcpPcbAlloc s.pcbs with
  | none => s.ret t (-1) []
  | some i =>
    let s := s.setPcb i { s.pcbs i with state := .closed }
    if active then (s.release i).ret t (-1) []
    else
      (s.setPcb i { s.pcbs i with «local» := «local», foreign := foreign.getD (s.pcbs i).foreign
                                  state := .listen }).setThr t (.openWait i .listen .none)

/-- A sleeper of `tcp_open_rfc793` leaves `sched_sleep`. -/
def openResume (s : Sys n) (t : Fin n) (i : Slot) (st : TcpPcbState) (w : Wake) : Sys n :=
  let s := s.setThr t .idle
  if w = .interrupt then (s.closeRelease i).ret t (-1) [] else openCheck s t i st

/-- `tcp_close`: a reset, then release. -/
def closeCall (s : Sys n) (t : Fin n) (id : Int) (ok : Bool) : Sys n :=
  match tcpPcbGet s.pcbs id with
  | none => s.ret t (-1) []
  | some i => ((s.emit (.seg (some i) (some t) (tcpOutput (s.pcbs i) flgRst []) ok)).release i).ret t 0 []

/-- The maximum segment size `tcp_send` computes from the MTU, as a `size_t`. -/
def mssOf (mtu : BitVec 16) : Nat := (mtu.toNat + 2 ^ 64 - 40) % 2 ^ 64

/-- `RETRY:` of `tcp_send`. -/
def sendRetry (route : BitVec 32 → Option (BitVec 16)) (s : Sys n) (t : Fin n) (i : Slot)
    (data : List (BitVec 8)) (sent : Nat) : Sys n :=
  if (s.pcbs i).state = .established then
    match route (s.pcbs i).foreign.addr with
    | none => s.ret t (-1) []
    | some mtu => s.setThr t (.sendLoop i data sent (mssOf mtu))
  else s.ret t (-1) []

/-- `cap = pcb->snd.wnd - (pcb->snd.nxt - pcb->snd.una)`, a `uint32_t` value. -/
def sendCap (snd : TcpSnd) : Nat := (snd.wnd.setWidth 32 - (snd.nxt - snd.una)).toNat

/-- `slen = MIN(MIN(mss, len - sent), cap)`. -/
def sendLen (pcb : TcpPcb) (data : List (BitVec 8)) (sent mss : Nat) : Nat :=
  min (min mss (data.length - sent)) (sendCap pcb.snd)

/-- The segment an iteration of `tcp_send`'s loop hands to `tcp_output`. -/
def sendSeg (pcb : TcpPcb) (data : List (BitVec 8)) (sent mss : Nat) : TcpSegOut :=
  tcpOutput pcb (flgAck ||| flgPsh) ((data.drop sent).take (sendLen pcb data sent mss))

@[simp] theorem sendSeg_flg (pcb : TcpPcb) (data : List (BitVec 8)) (sent mss : Nat) :
    (sendSeg pcb data sent mss).flg = flgAck ||| flgPsh := rfl

/-- One iteration of the loop of `tcp_send`. -/
def sendIter (s : Sys n) (t : Fin n) (i : Slot) (data : List (BitVec 8)) (sent mss : Nat) (ok : Bool) :
    Sys n :=
  if sent < data.length then
    let pcb := s.pcbs i
    if sendCap pcb.snd = 0 then s.setThr t (.sendWait i data sent .none)
    else
      let s := s.emit (.seg (some i) (some t) (sendSeg pcb data sent mss) ok)
      if ok then
        (s.setPcb i (sendAdvance pcb (sendLen pcb data sent mss))).setThr t
          (.sendLoop i data (sent + sendLen pcb data sent mss) mss)
      else (s.closeRelease i).ret t (-1) []
  else s.ret t sent []

/-- A sleeper of `tcp_send` leaves `sched_sleep`. -/
def sendResume (route : BitVec 32 → Option (BitVec 16)) (s : Sys n) (t : Fin n) (i : Slot)
    (data : List (BitVec 8)) (sent : Nat) (w : Wake) : Sys n :=
  if w = .interrupt then s.ret t (if sent = 0 then -1 else sent) [] else sendRetry route s t i data sent

/-- `RETRY:` of `tcp_receive`: sleep on an empty buffer, else copy out
`min(size, remain)` bytes from the head. -/
def recvRetry (s : Sys n) (t : Fin n) (i : Slot) (size : Nat) : Sys n :=
  let pcb := s.pcbs i
  if pcb.state = .established then
    let remain := bufSize - pcb.rcv.wnd.toNat
    if remain = 0 then s.setThr t (.recvWait i size .none)
    else (s.setPcb i (tcpReceiveTake pcb size).1).ret t (min size remain) (tcpReceiveTake pcb size).2
  else s.ret t (-1) []

/-- A sleeper of `tcp_receive` leaves `sched_sleep`. -/
def recvResume (s : Sys n) (t : Fin n) (i : Slot) (size : Nat) (w : Wake) : Sys n :=
  if w = .interrupt then s.ret t (-1) [] else recvRetry s t i size

/-- A user call entering the stack. -/
def callStep (route : BitVec 32 → Option (BitVec 16)) (s : Sys n) (t : Fin n) (ok : Bool) : Call → Sys n
  | .openRfc793 l f active => openCall s t l f active
  | .send id data =>
    match tcpPcbGet s.pcbs id with
    | none => s.ret t (-1) []
    | some i => sendRetry route s t i data 0
  | .receive id size =>
    match tcpPcbGet s.pcbs id with
    | none => s.ret t (-1) []
    | some i => recvRetry s t i size
  | .close id => closeCall s t id ok

/-! ### Steps and runs -/

/-- Thread `t` goes on. -/
def runStep (route : BitVec 32 → Option (BitVec 16)) (s : Sys n) (t : Fin n) (ok : Bool) : Option (Sys n) :=
  match s.thr t with
  | .idle => none
  | .sendLoop i data sent mss => some (sendIter s t i data sent mss ok)
  | .openWait i st w => if s.lockFree ∧ w ≠ .none then some (openResume s t i st w) else none
  | .sendWait i data sent w =>
    if s.lockFree ∧ w ≠ .none then some (sendResume route s t i data sent w) else none
  | .recvWait i size w => if s.lockFree ∧ w ≠ .none then some (recvResume s t i size w) else none

/-- One step of the stack. -/
def step (route : BitVec 32 → Option (BitVec 16)) (s : Sys n) : Event n → Option (Sys n)
  | .input data src dst rnd ok =>
    if s.lockFree then some ((tcpInput data src dst).elim s fun a => arrive s a rnd ok) else none
  | .interrupt => if s.lockFree then some (eventHandler s) else none
  | .call t c ok =>
    if s.lockFree ∧ s.thr t = .idle then some (callStep route (s.emit (.call t c)) t ok c) else none
  | .run t ok => runStep route s t ok

/-- **What a step can be**: an arrival or the external event while no thread
holds the mutex, a user call of an idle thread, an iteration of the loop of
`tcp_send`, or a sleeper with something pending leaving `sched_sleep`. -/
theorem step_cases {route : BitVec 32 → Option (BitVec 16)} {s s' : Sys n} {e : Event n}
    (h : step route s e = some s') :
    (∃ data src dst rnd ok, e = .input data src dst rnd ok ∧ s.lockFree = true ∧
        s' = (tcpInput data src dst).elim s fun a => arrive s a rnd ok) ∨
    (e = .interrupt ∧ s.lockFree = true ∧ s' = eventHandler s) ∨
    (∃ t c ok, e = .call t c ok ∧ s.lockFree = true ∧ s.thr t = .idle ∧
        s' = callStep route (s.emit (.call t c)) t ok c) ∨
    (∃ t ok i data sent mss, e = .run t ok ∧ s.thr t = .sendLoop i data sent mss ∧
        s' = sendIter s t i data sent mss ok) ∨
    (∃ t ok i st w, e = .run t ok ∧ s.thr t = .openWait i st w ∧ s.lockFree = true ∧ w ≠ .none ∧
        s' = openResume s t i st w) ∨
    (∃ t ok i data sent w, e = .run t ok ∧ s.thr t = .sendWait i data sent w ∧ s.lockFree = true ∧
        w ≠ .none ∧ s' = sendResume route s t i data sent w) ∨
    (∃ t ok i size w, e = .run t ok ∧ s.thr t = .recvWait i size w ∧ s.lockFree = true ∧ w ≠ .none ∧
        s' = recvResume s t i size w) := by
  cases e with
  | input data src dst rnd ok =>
    rw [step] at h
    split at h
    · cases h; exact .inl ⟨data, src, dst, rnd, ok, rfl, ‹_›, rfl⟩
    · cases h
  | interrupt =>
    rw [step] at h
    split at h
    · cases h; exact .inr (.inl ⟨rfl, ‹_›, rfl⟩)
    · cases h
  | call t c ok =>
    rw [step] at h
    split at h
    · rename_i hc; cases h; exact .inr (.inr (.inl ⟨t, c, ok, rfl, hc.1, hc.2, rfl⟩))
    · cases h
  | run t ok =>
    rw [step, runStep] at h
    split at h
    · cases h
    · rename_i ht; cases h
      exact .inr (.inr (.inr (.inl ⟨t, ok, _, _, _, _, rfl, ht, rfl⟩)))
    · rename_i ht
      split at h
      · rename_i hc; cases h
        exact .inr (.inr (.inr (.inr (.inl ⟨t, ok, _, _, _, rfl, ht, hc.1, hc.2, rfl⟩))))
      · cases h
    · rename_i ht
      split at h
      · rename_i hc; cases h
        exact .inr (.inr (.inr (.inr (.inr (.inl ⟨t, ok, _, _, _, _, rfl, ht, hc.1, hc.2, rfl⟩)))))
      · cases h
    · rename_i ht
      split at h
      · rename_i hc; cases h
        exact .inr (.inr (.inr (.inr (.inr (.inr ⟨t, ok, _, _, _, rfl, ht, hc.1, hc.2, rfl⟩)))))
      · cases h

/-- A segment a peer emits, as it reaches `tcp_input`: the bytes
`tcp_output_segment` builds for `o`, from `o.local` to `o.foreign`. -/
def Event.segment (o : TcpSegOut) (rnd : BitVec 32) (ok : Bool) : Event n :=
  .input (tcpOutputSegment o) o.local.addr o.foreign.addr rnd ok

/-- A segment emitted by a peer reaches `tcp_segment_arrives` as it was sent. -/
theorem step_segment {route : BitVec 32 → Option (BitVec 16)} {s : Sys n} {o : TcpSegOut}
    (rnd : BitVec 32) (ok : Bool) (hl : s.lockFree = true) (h : o.data.length + tcpHdrSize ≤ 65535)
    (hsrc : o.local.addr ≠ ipAddrBroadcast) (hdst : o.foreign.addr ≠ ipAddrBroadcast) :
    step route s (.segment o rnd ok) = some (arrive s o.received rnd ok) := by
  simp only [Event.segment, step, hl, if_true, tcpInput_tcpOutputSegment o h hsrc hdst, Option.elim]

/-! ### Undefined behaviour -/

/-- The step copies no byte past a buffer.  An arrival's payload fits
`pcb->buf` (`tcp_segment_arrives` flags a copy longer than `rcv.wnd`), and an
iteration of `tcp_send` hands `tcp_output_segment` no more bytes than its
`uint8_t buf[IP_PAYLOAD_SIZE_MAX]` holds after the header.  The model computes
the other steps too, and `payload_overruns_window` shows where an overrunning
copy lands; what it overwrites, the next fields of `struct tcp_pcb` and the
next PCB of `pcbs` or the stack of `tcp_output_segment`, is not modelled.  So
the results on reachable states are read over the runs `Defined` admits. -/
def defined (s : Sys n) : Event n → Bool
  | .input data src dst rnd _ =>
    match tcpInput data src dst with
    | some a =>
      match arrivesSlot s.pcbs a with
      | some i => !(tcpSegmentArrivesPcb (s.pcbs i) a rnd).overrun
      | none => true
    | none => true
  | .run t _ =>
    match s.thr t with
    | .sendLoop i data sent mss => decide (sendLen (s.pcbs i) data sent mss + tcpHdrSize ≤ ipPayloadSizeMax)
    | _ => true
  | _ => true

def Defined (s : Sys n) (e : Event n) : Prop := defined s e = true

instance (s : Sys n) (e : Event n) : Decidable (Defined s e) := inferInstanceAs (Decidable (_ = true))

/-- The states the stack reaches from `Sys.init` by steps that `ok` admits
(`fun _ _ => True` for all of them). -/
inductive Reachable (route : BitVec 32 → Option (BitVec 16)) (ok : Sys n → Event n → Prop) :
    Sys n → Prop
  | init : Reachable route ok (Sys.init n)
  | step {s s' : Sys n} {e : Event n} : Reachable route ok s → ok s e → step route s e = some s' →
      Reachable route ok s'

/-- The state after the events `es`, if each can happen in turn. -/
def run (route : BitVec 32 → Option (BitVec 16)) (s : Sys n) (es : List (Event n)) : Option (Sys n) :=
  es.foldlM (step route) s

theorem Reachable.run {route : BitVec 32 → Option (BitVec 16)} :
    ∀ {s s' : Sys n} (es : List (Event n)), Reachable route (fun _ _ => True) s →
      Tcp.run route s es = some s' → Reachable route (fun _ _ => True) s'
  | _, _, [], h, he => by cases he; exact h
  | s, s', e :: es, h, he => by
    simp only [Tcp.run, List.foldlM_cons] at he
    cases hs : Tcp.step route s e with
    | none => simp [hs] at he
    | some s₁ => rw [hs] at he; exact Reachable.run es (h.step trivial hs) he

/-- A run from the start ends in a reachable state. -/
theorem Reachable.of_run {route : BitVec 32 → Option (BitVec 16)} {es : List (Event n)} {s : Sys n}
    (h : Tcp.run route (Sys.init n) es = some s) : Reachable route (fun _ _ => True) s :=
  Reachable.init.run es h

theorem Reachable.mono {route : BitVec 32 → Option (BitVec 16)} {ok ok' : Sys n → Event n → Prop} {s : Sys n}
    (h : Reachable route ok s) (hok : ∀ s e, ok s e → ok' s e) : Reachable route ok' s := by
  induction h with
  | init => exact .init
  | step _ he hs ih => exact ih.step (hok _ _ he) hs

/-- The state after the events `es`, each admitted by `ok` where it happens. -/
def runIf (route : BitVec 32 → Option (BitVec 16)) (ok : Sys n → Event n → Prop)
    [∀ s e, Decidable (ok s e)] (s : Sys n) : List (Event n) → Option (Sys n)
  | [] => some s
  | e :: es => if ok s e then (step route s e).bind fun s' => runIf route ok s' es else none

theorem Reachable.runIf {route : BitVec 32 → Option (BitVec 16)} {ok : Sys n → Event n → Prop}
    [∀ s e, Decidable (ok s e)] :
    ∀ {s s' : Sys n} (es : List (Event n)), Reachable route ok s → Tcp.runIf route ok s es = some s' →
      Reachable route ok s'
  | _, _, [], h, he => by cases he; exact h
  | s, s', e :: es, h, he => by
    simp only [Tcp.runIf] at he
    split at he
    · cases hs : Tcp.step route s e with
      | none => simp [hs] at he
      | some s₁ => rw [hs] at he; exact Reachable.runIf es (h.step ‹_› hs) he
    · cases he

theorem run_singleton (route : BitVec 32 → Option (BitVec 16)) (s : Sys n) (e : Event n) :
    Tcp.run route s [e] = step route s e := by
  simp [Tcp.run]

theorem run_cons_of_step {route : BitVec 32 → Option (BitVec 16)} {s s₁ : Sys n} {e : Event n}
    (es : List (Event n)) (h : step route s e = some s₁) : Tcp.run route s (e :: es) = Tcp.run route s₁ es := by
  simp only [Tcp.run, List.foldlM_cons, h]
  rfl

theorem run_append_of_some {route : BitVec 32 → Option (BitVec 16)} {s s₁ : Sys n} {es : List (Event n)}
    (h : Tcp.run route s es = some s₁) (es' : List (Event n)) :
    Tcp.run route s (es ++ es') = Tcp.run route s₁ es' := by
  rw [Tcp.run, List.foldlM_append, ← Tcp.run, h]
  rfl

/-- A run whose steps `ok` admits is a run. -/
theorem run_of_runIf {route : BitVec 32 → Option (BitVec 16)} {ok : Sys n → Event n → Prop}
    [∀ s e, Decidable (ok s e)] :
    ∀ {s s' : Sys n} (es : List (Event n)), Tcp.runIf route ok s es = some s' → Tcp.run route s es = some s'
  | _, _, [], he => he
  | s, _, e :: es, he => by
    simp only [Tcp.runIf] at he
    split at he
    · cases hs : step route s e with
      | none => simp [hs] at he
      | some s₁ => rw [hs] at he; rw [run_cons_of_step _ hs]; exact run_of_runIf es he
    · cases he

/-- A run that ends where the decidable `P` holds, as `decide` checks it on a
concrete run. -/
theorem exists_of_decide {o : Option (Sys n)} {P : Sys n → Prop} [DecidablePred P]
    (h : o.map (fun s => decide (P s)) = some true) : ∃ s, o = some s ∧ P s :=
  (Option.map_eq_some'.mp h).imp fun _ ⟨hs, hp⟩ => ⟨hs, of_decide_eq_true hp⟩

/-- A run of `es` that ends where `p` holds, and from every such state a run of
`es'` to a state where `P` holds: a run of `es ++ es'` to such a state.  For a
concrete `es`, `decide` checks the first premise. -/
theorem exists_run_append {route : BitVec 32 → Option (BitVec 16)} {s : Sys n}
    {es es' : List (Event n)} {p : Sys n → Bool} {P : Sys n → Prop}
    (h : (Tcp.run route s es).map p = some true)
    (h' : ∀ s', p s' = true → ∃ s'', Tcp.run route s' es' = some s'' ∧ P s'') :
    ∃ s'', Tcp.run route s (es ++ es') = some s'' ∧ P s'' := by
  obtain ⟨s', hs, hp⟩ := Option.map_eq_some'.mp h
  obtain ⟨s'', hs', hP⟩ := h' s' hp
  exact ⟨s'', (run_append_of_some hs es').trans hs', hP⟩

/-- A passive open on `me` by thread `t`, then a three-way handshake from `peer`
with initial sequence numbers `irs` (the peer's) and `iss` (`random()`), the
peer advertising the window `wnd`. -/
def handshake (t : Fin n) (me peer : IpEndpoint) (irs iss : BitVec 32) (wnd : BitVec 16) :
    List (Event n) :=
  [.call t (.openRfc793 me none false) true,
   .segment ⟨irs, 0, flgSyn, wnd, [], peer, me⟩ iss true,
   .segment ⟨irs + 1, iss + 1, flgAck, wnd, [], peer, me⟩ 0 true]

end Microps.Tcp
