import Microps.Tcp.Segment

/-!
# Protocol control blocks

The table `pcbs` holds `TCP_PCB_SIZE` protocol control blocks; a slot's index is
the handle the user calls see.  `tcp_pcb_alloc` hands out the first FREE slot,
release zeroes a slot (`TcpPcb.zero`, state FREE), `tcp_pcb_select` finds the
PCB a segment belongs to and `tcp_pcb_get` turns a handle back into a slot.
`tcpOutput` is the call of `tcp_output_segment` that `tcp_output` makes.

The receive buffer is a function of the byte index, so that `bufWrite` can
follow a copy that runs past its end.  In the code the indices from `bufSize`
on are not part of `buf` but the fields after it and the next slot of `pcbs`,
and such a copy is undefined behaviour: `tcp_segment_arrives` flags it
(`Arrived.overrun`).  `bufRead_bufWrite` and `bufRead_bufShift` are what
appending a payload and taking bytes out of the head do to the bytes in front.
-/

namespace Microps.Tcp

/-- `TCP_PCB_STATE_*`. -/
inductive TcpPcbState
  | free | closed | listen | synSent | synReceived | established
  | finWait1 | finWait2 | closing | timeWait | closeWait | lastAck
  deriving DecidableEq, Repr

/-- The send variables `pcb->snd`; the urgent pointer is never read. -/
structure TcpSnd where
  nxt : BitVec 32
  una : BitVec 32
  wnd : BitVec 16
  wl1 : BitVec 32
  wl2 : BitVec 32
  deriving DecidableEq, Repr

/-- The receive variables `pcb->rcv`; the urgent pointer is never read. -/
structure TcpRcv where
  nxt : BitVec 32
  wnd : BitVec 16
  deriving DecidableEq, Repr

/-- `struct tcp_pcb`.  `mtu` and `mss` are never read, and the wait/wake context
is the set of threads sleeping on the slot (`Stack.lean`). -/
structure TcpPcb where
  state : TcpPcbState
  «local» : IpEndpoint
  foreign : IpEndpoint
  snd : TcpSnd
  iss : BitVec 32
  rcv : TcpRcv
  irs : BitVec 32
  buf : Nat → BitVec 8

/-- `sizeof(pcb->buf)`. -/
def bufSize : Nat := 65535

/-- `TCP_PCB_SIZE`. -/
def tcpPcbSize : Nat := 16

instance : @NeZero ℕ (@Zero.ofOfNat0 ℕ (instOfNatNat 0)) tcpPcbSize := ⟨Nat.succ_ne_zero 15⟩

/-- A slot of the table. -/
abbrev Slot := Fin tcpPcbSize

/-- A zeroed PCB: what `memset(pcb, 0, sizeof(*pcb))` leaves, state FREE. -/
def TcpPcb.zero : TcpPcb :=
  ⟨.free, ⟨0, 0⟩, ⟨0, 0⟩, ⟨0, 0, 0, 0, 0⟩, 0, ⟨0, 0⟩, 0, fun _ => 0⟩

@[simp] theorem TcpPcb.zero_state : TcpPcb.zero.state = .free := rfl

@[simp] theorem TcpPcb.zero_foreign : TcpPcb.zero.foreign = ⟨0, 0⟩ := rfl

/-! ### The receive buffer -/

/-- `memcpy(buf + off, data, len)`.  An index from `bufSize` on lies outside
`pcb->buf`: a write there is undefined behaviour, which the model records at
the index and does not carry into the memory that follows `buf`. -/
def bufWrite (buf : Nat → BitVec 8) (off : Nat) (data : List (BitVec 8)) (len : Nat) :
    Nat → BitVec 8 :=
  fun j => if off ≤ j ∧ j < off + len then data.getD (j - off) 0 else buf j

/-- `memmove(buf, buf + len, remain - len)`. -/
def bufShift (buf : Nat → BitVec 8) (len remain : Nat) : Nat → BitVec 8 :=
  fun j => if j < remain - len then buf (j + len) else buf j

/-- The bytes `buf[0 .. n)`. -/
def bufRead (buf : Nat → BitVec 8) (n : Nat) : List (BitVec 8) := (List.range n).map buf

@[simp] theorem length_bufRead (buf : Nat → BitVec 8) (n : Nat) : (bufRead buf n).length = n := by
  simp [bufRead]

theorem bufRead_congr {buf buf' : Nat → BitVec 8} {n : Nat} (h : ∀ j < n, buf j = buf' j) :
    bufRead buf n = bufRead buf' n :=
  List.map_congr_left fun j hj => h j (List.mem_range.mp hj)

/-- **Appending a payload.**  Copying `data` behind the first `off` bytes keeps
them and puts `data` after them. -/
theorem bufRead_bufWrite (buf : Nat → BitVec 8) (off : Nat) (data : List (BitVec 8)) :
    bufRead (bufWrite buf off data data.length) (off + data.length) = bufRead buf off ++ data := by
  apply List.ext_getElem (by simp)
  intro j h1 _
  simp only [length_bufRead] at h1
  simp only [bufRead, List.getElem_map, List.getElem_range, bufWrite, List.getElem_append,
    List.length_map, List.length_range]
  by_cases hj : j < off
  · simp [hj, Nat.not_le.mpr hj]
  · simp only [hj, dite_false, and_true, Nat.not_lt.mp hj, true_and, if_pos h1]
    exact List.getD_eq_getElem _ _ _

/-- **Taking bytes out of the head.**  Moving the bytes from `len` on to the
front leaves the valid part without its first `len` bytes. -/
theorem bufRead_bufShift (buf : Nat → BitVec 8) (len remain : Nat) :
    bufRead (bufShift buf len remain) (remain - len) = (bufRead buf remain).drop len := by
  apply List.ext_getElem (by simp)
  intro j h1 h2
  simp only [length_bufRead] at h1
  simp [bufRead, bufShift, h1, Nat.add_comm]

/-! ### The table -/

/-- `tcp_pcb_alloc`: the first FREE slot (which the caller then marks CLOSED). -/
def tcpPcbAlloc (pcbs : Slot → TcpPcb) : Option Slot :=
  (List.finRange tcpPcbSize).find? fun i => (pcbs i).state = .free

/-- The loop of `tcp_pcb_select` over the slots `is`, with the LISTEN PCB seen so far. -/
def tcpPcbSelectFrom (pcbs : Slot → TcpPcb) («local» : IpEndpoint) (foreign : Option IpEndpoint) :
    List Slot → Option Slot → Option Slot
  | [], listenPcb => listenPcb
  | i :: is, listenPcb =>
    if ((pcbs i).local.addr = ipAddrAny ∨ (pcbs i).local.addr = «local».addr) ∧
        (pcbs i).local.port = «local».port then
      match foreign with
      | none => some i
      | some f =>
        if (pcbs i).foreign.addr = f.addr ∧ (pcbs i).foreign.port = f.port then some i
        else if (pcbs i).state = .listen ∧ (pcbs i).foreign.addr = ipAddrAny ∧
            (pcbs i).foreign.port = 0 then tcpPcbSelectFrom pcbs «local» foreign is (some i)
        else tcpPcbSelectFrom pcbs «local» foreign is listenPcb
    else tcpPcbSelectFrom pcbs «local» foreign is listenPcb

/-- `tcp_pcb_select`. -/
def tcpPcbSelect (pcbs : Slot → TcpPcb) («local» : IpEndpoint) (foreign : Option IpEndpoint) :
    Option Slot :=
  tcpPcbSelectFrom pcbs «local» foreign (List.finRange tcpPcbSize) none

/-- `tcp_pcb_get`. -/
def tcpPcbGet (pcbs : Slot → TcpPcb) (id : Int) : Option Slot :=
  if h : 0 ≤ id ∧ id < tcpPcbSize then
    if (pcbs ⟨id.toNat, by omega⟩).state = .free then none else some ⟨id.toNat, by omega⟩
  else none

/-- `tcp_output(pcb, flg, data, len)`: the segment it hands to `tcp_output_segment`. -/
def tcpOutput (pcb : TcpPcb) (flg : BitVec 8) (data : List (BitVec 8)) : TcpSegOut :=
  { seq := if flgIsset flg flgSyn then pcb.iss else pcb.snd.nxt, ack := pcb.rcv.nxt, flg := flg
    wnd := pcb.rcv.wnd, data := data, «local» := pcb.local, foreign := pcb.foreign }

@[simp] theorem tcpOutput_flg (pcb : TcpPcb) (flg : BitVec 8) (data : List (BitVec 8)) :
    (tcpOutput pcb flg data).flg = flg := rfl

@[simp] theorem tcpOutput_data (pcb : TcpPcb) (flg : BitVec 8) (data : List (BitVec 8)) :
    (tcpOutput pcb flg data).data = data := rfl

/-- The copy-out of `tcp_receive` once `remain = sizeof(buf) - rcv.wnd` is not
zero: the first `min(size, remain)` bytes leave the buffer and the window grows
by as many. -/
def tcpReceiveTake (pcb : TcpPcb) (size : Nat) : TcpPcb × List (BitVec 8) :=
  let remain := bufSize - pcb.rcv.wnd.toNat
  let len := min size remain
  ({ pcb with buf := bufShift pcb.buf len remain
              rcv := { pcb.rcv with wnd := pcb.rcv.wnd + BitVec.ofNat 16 len } },
    bufRead pcb.buf len)

theorem bufRead_le {buf : Nat → BitVec 8} {m n : Nat} (h : m ≤ n) :
    bufRead buf m = (bufRead buf n).take m := by
  rw [bufRead, bufRead, ← List.map_take, List.take_range, Nat.min_eq_left h]

/-- **Taking bytes out.**  The bytes `tcp_receive` copies out, followed by the
bytes left in front of the buffer, are the bytes that were in front. -/
theorem tcpReceiveTake_front (pcb : TcpPcb) (size : Nat) :
    (tcpReceiveTake pcb size).2 ++
        bufRead (tcpReceiveTake pcb size).1.buf (bufSize - (tcpReceiveTake pcb size).1.rcv.wnd.toNat) =
      bufRead pcb.buf (bufSize - pcb.rcv.wnd.toNat) := by
  have hw : (pcb.rcv.wnd + BitVec.ofNat 16 (min size (bufSize - pcb.rcv.wnd.toNat))).toNat =
      pcb.rcv.wnd.toNat + min size (bufSize - pcb.rcv.wnd.toNat) := by
    rw [BitVec.toNat_add, BitVec.toNat_ofNat]; simp only [bufSize]; omega
  simp only [tcpReceiveTake, hw]
  rw [show bufSize - (pcb.rcv.wnd.toNat + min size (bufSize - pcb.rcv.wnd.toNat)) =
      bufSize - pcb.rcv.wnd.toNat - min size (bufSize - pcb.rcv.wnd.toNat) by omega,
    bufRead_bufShift, bufRead_le (Nat.min_le_right _ _), List.take_append_drop]

/-- `pcb->snd.nxt += slen` after `tcp_send` emitted `slen` bytes. -/
def sendAdvance (pcb : TcpPcb) (slen : Nat) : TcpPcb :=
  { pcb with snd := { pcb.snd with nxt := pcb.snd.nxt + BitVec.ofNat 32 slen } }

theorem tcpPcbGet_some {pcbs : Slot → TcpPcb} {id : Int} {i : Slot} (h : tcpPcbGet pcbs id = some i) :
    (i : Int) = id ∧ (pcbs i).state ≠ .free := by
  unfold tcpPcbGet at h
  split at h
  · split at h
    · cases h
    · cases h; constructor
      · simp only [Int.toNat_of_nonneg (by omega : 0 ≤ id)]
      · assumption
  · cases h

theorem tcpPcbAlloc_some {pcbs : Slot → TcpPcb} {i : Slot} (h : tcpPcbAlloc pcbs = some i) :
    (pcbs i).state = .free := by
  simpa using List.find?_some h

end Microps.Tcp
