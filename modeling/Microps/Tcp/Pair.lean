import Microps.Tcp.Steps
import Microps.Tcp.Sending

/-!
# Two stacks

`tcp_open_rfc793` refuses an active open, so the stack never sends a segment
with SYN and no ACK (`synOnly`): `no_synOnly_of_reachable` proves it of every
log the stack can write, whatever arrives.  Such a segment is the only way out
of LISTEN (`not_live_pcbStep`), so a stack that is never sent one never has a
PCB in SYN_RECEIVED or ESTABLISHED.

`Linked` joins two stacks by a network that may lose, repeat and reorder
datagrams but does not alter them: each step is a step of one stack, and a
datagram it takes in is one that one of the two has emitted (`Carried`).
`linked_never_connect` puts the two results together: two microps stacks,
whatever their users call and in every interleaving, never connect.
-/

namespace Microps.Tcp

variable {n : Nat} {route : BitVec 32 → Option (BitVec 16)}

open Sys

/-- Flags that open a connection: SYN without ACK. -/
def synOnly (flg : BitVec 8) : Bool := flgIsset flg flgSyn && !flgIsset flg flgAck

/-- A segment in the log that opens a connection. -/
def Out.synOnly : Out n → Bool
  | .seg _ _ o _ => Tcp.synOnly o.flg
  | _ => false

/-- A datagram that `tcp_input` hands on as a segment that opens a connection. -/
def Event.synOnly : Event n → Bool
  | .input data src dst _ _ => ((tcpInput data src dst).map fun a => Tcp.synOnly a.flags).getD false
  | _ => false

@[simp] theorem Out.synOnly_seg (i : Option Slot) (t : Option (Fin n)) (o : TcpSegOut) (ok : Bool) :
    (Out.seg i t o ok).synOnly = Tcp.synOnly o.flg := rfl
@[simp] theorem Out.synOnly_call (t : Fin n) (c : Call) : (Out.call t c).synOnly = false := rfl
@[simp] theorem Out.synOnly_ret (t : Fin n) (r : Int) (d : List (BitVec 8)) : (Out.ret t r d).synOnly = false := rfl

@[simp] theorem synOnly_rst : synOnly flgRst = false := by decide
@[simp] theorem synOnly_rstAck : synOnly (flgRst ||| flgAck) = false := by decide
@[simp] theorem synOnly_synAck : synOnly (flgSyn ||| flgAck) = false := by decide
@[simp] theorem synOnly_ack : synOnly flgAck = false := by decide
@[simp] theorem synOnly_ackPsh : synOnly (flgAck ||| flgPsh) = false := by decide

theorem arrivesNoPcb_synOnly {a : TcpArrival} {o : TcpSegOut} (h : arrivesNoPcb a = some o) :
    synOnly o.flg = false := by
  unfold arrivesNoPcb at h
  split_ifs at h <;> cases h <;> simp [rstSeg]

theorem tcpSegmentArrivesPcb_synOnly {pcb : TcpPcb} {a : TcpArrival} {rnd : BitVec 32} {o : TcpSegOut}
    (h : (tcpSegmentArrivesPcb pcb a rnd).out = some o) : synOnly o.flg = false := by
  rcases tcpSegmentArrivesPcb_cases pcb a rnd with ⟨-, he⟩ | ⟨-, he⟩ | he <;> rw [he] at h
  · unfold arrivesListen at h
    split_ifs at h <;> cases h <;> simp [rstSeg]
  · simp [synOnly, (arrivesSynchronized_out pcb a h).1]
  · cases h

section Log

variable {s : Sys n} {t : Fin n} {i : Slot}

@[simp] theorem any_arrive (a : TcpArrival) (rnd : BitVec 32) (ok : Bool) :
    (arrive s a rnd ok).out.any Out.synOnly = s.out.any Out.synOnly := by
  cases hi : arrivesSlot s.pcbs a with
  | none =>
    rw [arrive_out_of_none rnd ok hi]
    cases ho : arrivesNoPcb a with
    | none => simp
    | some o => simp [arrivesNoPcb_synOnly ho]
  | some j =>
    rw [arrive_out_of_slot rnd ok hi]
    cases ho : (tcpSegmentArrivesPcb (s.pcbs j) a rnd).out with
    | none => simp
    | some o => simp [tcpSegmentArrivesPcb_synOnly ho]

@[simp] theorem any_openCheck (st : TcpPcbState) :
    (openCheck s t i st).out.any Out.synOnly = s.out.any Out.synOnly := by
  unfold openCheck; split_ifs <;> simp

@[simp] theorem any_sendRetry (data : List (BitVec 8)) (sent : Nat) :
    (sendRetry route s t i data sent).out.any Out.synOnly = s.out.any Out.synOnly := by
  unfold sendRetry; split_ifs <;> [split; skip] <;> simp

@[simp] theorem any_recvRetry (size : Nat) :
    (recvRetry s t i size).out.any Out.synOnly = s.out.any Out.synOnly := by
  unfold recvRetry; dsimp only; split_ifs <;> simp

theorem any_callStep (ok : Bool) (c : Call) :
    (callStep route s t ok c).out.any Out.synOnly = s.out.any Out.synOnly := by
  cases c with
  | openRfc793 l f active =>
    simp only [callStep, openCall]; split
    · simp
    · split_ifs <;> simp
  | send id data => simp only [callStep]; split <;> simp
  | receive id size => simp only [callStep]; split <;> simp
  | close id => simp only [callStep, closeCall]; split <;> simp [tcpOutput]

theorem any_runStep {s' : Sys n} {ok : Bool} (h : runStep route s t ok = some s') :
    s'.out.any Out.synOnly = s.out.any Out.synOnly := by
  unfold runStep at h
  split at h
  · cases h
  · cases h; unfold sendIter; dsimp only; split_ifs <;> simp
  all_goals split at h <;> cases h
  · unfold openResume; split_ifs <;> simp
  · unfold sendResume; split_ifs <;> simp
  · unfold recvResume; split_ifs <;> simp

/-- **One step sends no segment that opens a connection.** -/
theorem any_step {s' : Sys n} {e : Event n} (h : step route s e = some s') :
    s'.out.any Out.synOnly = s.out.any Out.synOnly := by
  cases e with
  | input data src dst rnd ok =>
    simp only [step] at h; split at h <;> cases h
    cases tcpInput data src dst <;> simp
  | interrupt => simp only [step] at h; split at h <;> cases h; rfl
  | call t c ok => simp only [step] at h; split at h <;> cases h; simp [any_callStep]
  | run t ok => exact any_runStep h

/-- **No reachable state has sent a segment that opens a connection.** -/
theorem no_synOnly_of_reachable {ok : Sys n → Event n → Prop} {s : Sys n} (h : Reachable route ok s) :
    s.out.any Out.synOnly = false := by
  induction h with
  | init => rfl
  | step _ _ hs ih => rw [any_step hs, ih]

/-- After a passive open and a handshake the log holds the SYN|ACK, and no segment that opens a connection. -/
theorem no_synOnly_of_reachable_handshake :
    ∃ s, run (fun _ => some 1500) (Sys.init 1)
        (handshake 0 ⟨0x0a000002, 80⟩ ⟨0x0a000005, 40000⟩ 1000 500 4096) = some s ∧
      Out.seg (some 0) none ⟨500, 1001, flgSyn ||| flgAck, 65535, [], ⟨0x0a000002, 80⟩, ⟨0x0a000005, 40000⟩⟩
        true ∈ s.out ∧
      s.out.any Out.synOnly = false := by
  obtain ⟨s, hs, hsyn⟩ := exists_of_decide
    (P := fun s : Sys 1 => Out.seg (some 0) none
      ⟨500, 1001, flgSyn ||| flgAck, 65535, [], ⟨0x0a000002, 80⟩, ⟨0x0a000005, 40000⟩⟩ true ∈ s.out)
    (o := run (fun _ => some 1500) (Sys.init 1) (handshake 0 ⟨0x0a000002, 80⟩ ⟨0x0a000005, 40000⟩ 1000 500 4096))
    (by decide)
  exact ⟨s, hs, hsyn, no_synOnly_of_reachable (Reachable.of_run hs)⟩

end Log

section Table

/-- LISTEN moves only on a segment that opens a connection. -/
theorem arrivesListen_of_not_synOnly (pcb : TcpPcb) {a : TcpArrival} (rnd : BitVec 32)
    (h : synOnly a.flags = false) : (arrivesListen pcb a rnd).pcb = pcb := by
  unfold arrivesListen
  split_ifs <;> simp_all [synOnly]

/-- A step that takes in no segment opening a connection keeps a table with no
PCB in SYN_RECEIVED or ESTABLISHED so. -/
theorem not_live_pcbStep {s : Sys n} {e : Event n} {i : Slot} {p : TcpPcb} (hs : ∀ j, ¬Live (s.pcbs j))
    (he : e.synOnly = false) (h : PcbStep s i e p) : ¬Live p := by
  cases h with
  | keep => exact hs i
  | @arrive data src dst rnd ok a ha _ =>
    have hf : synOnly a.flags = false := by simpa [Event.synOnly, ha] using he
    rcases tcpSegmentArrivesPcb_cases (s.pcbs i) a rnd with ⟨-, h⟩ | ⟨hl, -⟩ | h
    · rw [h, arrivesListen_of_not_synOnly _ rnd hf]; exact hs i
    · exact absurd hl (hs i)
    · rw [h]; exact hs i
  | listen => simp [Live]
  | close => simp [Live]
  | free => simp [Live]
  | take he => exact absurd (.inr he) (hs i)
  | advance => exact hs i

end Table

/-- `tcp_input` reads the flags an emitted segment was built with. -/
theorem tcpInput_tcpOutputSegment_flags {o : TcpSegOut} {src dst : BitVec 32} {a : TcpArrival}
    (h : tcpInput (tcpOutputSegment o) src dst = some a) : a.flags = o.flg := by
  unfold tcpInput at h
  split_ifs at h with h₁
  cases h
  simp only [tcpOutputSegment, List.length_take, tcpHdrSize] at h₁ ⊢
  rw [List.getD_eq_getElem?_getD, List.getElem?_take_of_lt (by omega), ← List.getD_eq_getElem?_getD,
    List.append_assoc, List.append_assoc, getD_tcpHdrHead_flg]

/-! ### Two stacks -/

/-- `o` is a segment the stack has handed to `tcp_output_segment`. -/
def Sys.Sent (s : Sys n) (o : TcpSegOut) : Prop := ∃ i t ok, Out.seg i t o ok ∈ s.out

theorem Sys.Sent.synOnly {s : Sys n} {o : TcpSegOut} (h : s.Sent o) (hs : s.out.any Out.synOnly = false) :
    Tcp.synOnly o.flg = false := by
  obtain ⟨i, t, ok, hm⟩ := h
  simpa using List.any_eq_false.mp hs _ hm

/-- `e` is not a datagram, or it is the datagram of a segment that one of the
two stacks has emitted, as `tcp_output_segment` built it. -/
def Carried {m k : Nat} (a : Sys n) (b : Sys m) : Event k → Prop
  | .input data src dst _ _ => ∃ o, (a.Sent o ∨ b.Sent o) ∧
      data = tcpOutputSegment o ∧ src = o.local.addr ∧ dst = o.foreign.addr
  | _ => True

/-- Two stacks joined by a network that may lose, repeat and reorder datagrams,
and deliver a stack's own datagrams back to it, but does not alter them. -/
inductive Linked {m : Nat} (route₁ route₂ : BitVec 32 → Option (BitVec 16)) : Sys n → Sys m → Prop
  | init : Linked route₁ route₂ (Sys.init n) (Sys.init m)
  | left {a a' : Sys n} {b : Sys m} {e : Event n} : Linked route₁ route₂ a b → Carried a b e →
      step route₁ a e = some a' → Linked route₁ route₂ a' b
  | right {a : Sys n} {b b' : Sys m} {e : Event m} : Linked route₁ route₂ a b → Carried a b e →
      step route₂ b e = some b' → Linked route₁ route₂ a b'

theorem Carried.synOnly {m k : Nat} {a : Sys n} {b : Sys m} {e : Event k} (h : Carried a b e)
    (ha : a.out.any Out.synOnly = false) (hb : b.out.any Out.synOnly = false) : e.synOnly = false := by
  cases e with
  | input data src dst rnd ok =>
    obtain ⟨o, hm, rfl, rfl, rfl⟩ := h
    have ho : Tcp.synOnly o.flg = false := hm.elim (·.synOnly ha) (·.synOnly hb)
    cases hi : tcpInput (tcpOutputSegment o) o.local.addr o.foreign.addr with
    | none => simp [Event.synOnly, hi]
    | some a => simp [Event.synOnly, hi, tcpInput_tcpOutputSegment_flags hi, ho]
  | _ => rfl

variable {m : Nat} {route₁ route₂ : BitVec 32 → Option (BitVec 16)}

/-- What holds of two linked stacks: neither has sent a segment that opens a
connection, and neither has a PCB in SYN_RECEIVED or ESTABLISHED. -/
theorem Linked.quiet {a : Sys n} {b : Sys m} (h : Linked route₁ route₂ a b) :
    a.out.any Out.synOnly = false ∧ b.out.any Out.synOnly = false ∧
      (∀ i, ¬Live (a.pcbs i)) ∧ ∀ i, ¬Live (b.pcbs i) := by
  induction h with
  | init => exact ⟨rfl, rfl, fun _ => by simp [Live, Sys.init], fun _ => by simp [Live, Sys.init]⟩
  | left _ hc hs ih =>
    obtain ⟨ha, hb, hla, hlb⟩ := ih
    exact ⟨(any_step hs).trans ha, hb,
      fun i => not_live_pcbStep hla (hc.synOnly ha hb) (pcbStep_of_step hs i), hlb⟩
  | right _ hc hs ih =>
    obtain ⟨ha, hb, hla, hlb⟩ := ih
    exact ⟨ha, (any_step hs).trans hb, hla,
      fun i => not_live_pcbStep hlb (hc.synOnly ha hb) (pcbStep_of_step hs i)⟩

/-- **Two microps stacks never connect.**  Whatever their users call, in
every interleaving and over a network that loses, repeats and reorders
datagrams, no PCB of either stack is ever SYN_RECEIVED or ESTABLISHED: the
stack has no active open, so neither ever sends the SYN that a LISTEN PCB
waits for. -/
theorem linked_never_connect {a : Sys n} {b : Sys m} (h : Linked route₁ route₂ a b) (i : Slot) :
    ¬Live (a.pcbs i) ∧ ¬Live (b.pcbs i) :=
  ⟨h.quiet.2.2.1 i, h.quiet.2.2.2 i⟩

/-- A listener of `a` with a foreign endpoint given is closed, and its reset
reaches a listener of `b`, which stays in LISTEN. -/
theorem linked_never_connect_reset :
    ∃ (a : Sys 2) (b : Sys 1), Linked (fun _ => some 1500) (fun _ => some 1500) a b ∧
      (∃ o, a.Sent o ∧ flgIsset o.flg flgRst = true ∧ o.foreign = ⟨0x0a000005, 7⟩) ∧
      (b.pcbs 0).state = .listen ∧ ¬Live (a.pcbs 0) ∧ ¬Live (b.pcbs 0) := by
  let r : BitVec 32 → Option (BitVec 16) := fun _ => some 1500
  let c₁ : Call := .openRfc793 ⟨0x0a000002, 80⟩ (some ⟨0x0a000005, 7⟩) false
  let c₂ : Call := .openRfc793 ⟨0x0a000005, 7⟩ none false
  let a₁ := callStep r ((Sys.init 2).emit (.call 0 c₁)) 0 true c₁
  let a₂ := callStep r (a₁.emit (.call 1 (.close 0))) 1 true (.close 0)
  let b₁ := callStep r ((Sys.init 1).emit (.call 0 c₂)) 0 true c₂
  let o := tcpOutput (a₁.pcbs 0) flgRst []
  have hs : a₂.Sent o := ⟨some 0, some 1, true, by decide⟩
  have s₁ : step r (Sys.init 2) (.call 0 c₁ true) = some a₁ := rfl
  have s₂ : step r a₁ (.call 1 (.close 0) true) = some a₂ := rfl
  have t₁ : step r (Sys.init 1) (.call 0 c₂ true) = some b₁ := rfl
  have h₂ : Linked r r a₂ b₁ :=
    ((Linked.init.left (by exact trivial) s₁).left (by exact trivial) s₂).right (by exact trivial) t₁
  have h₃ : step r b₁ (.segment o 0 true) = some (arrive b₁ o.received 0 true) :=
    step_segment 0 true (by decide) (by decide) (by decide) (by decide)
  have hc : Carried a₂ b₁ (Event.segment (n := 1) o 0 true) := ⟨o, .inl hs, rfl, rfl, rfl⟩
  have h := h₂.right hc h₃
  exact ⟨a₂, _, h, ⟨o, hs, by decide, rfl⟩, by decide, linked_never_connect h 0⟩

end Microps.Tcp
