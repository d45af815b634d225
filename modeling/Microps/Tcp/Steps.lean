import Microps.Tcp.Stack

/-!
# What a step leaves in a slot

A step of the stack works on one slot at most, and what it can leave there is
one of a few things (`PcbStep`): the PCB as it was, what `tcp_segment_arrives`
makes of it, a LISTEN PCB on the slot `tcp_pcb_alloc` returned, the PCB set
CLOSED, the zero PCB of a release, the PCB after `tcp_receive` took bytes out,
or the PCB after `tcp_send` advanced `snd.nxt` by at most the send capacity.
`pcbStep_of_step` proves this once, function by function; the invariants of
the table are read off it.  The first is `free_slot_zero`: in every state
reached with defined behaviour a FREE slot holds the zero PCB that
`tcp_pcb_release` leaves, so `tcp_pcb_alloc` hands out a clean PCB.

`Lifecycle` is the life of a PCB as this stack implements it, a small abstract
machine over the states: a passive open of a FREE slot, the two steps of the
handshake, CLOSED and FREE from anywhere.  `step_lifecycle` proves that every
defined step of the stack moves each PCB along it, and
`implemented_of_reachable` that no PCB ever reaches SYN_SENT or a closing
state.
-/

namespace Microps.Tcp

variable {n : Nat} {route : BitVec 32 → Option (BitVec 16)}

open Sys

/-- What a step `e` from `s` can leave in slot `i`. -/
inductive PcbStep (s : Sys n) (i : Slot) : Event n → TcpPcb → Prop
  | keep {e : Event n} : PcbStep s i e (s.pcbs i)
  | arrive {data : List (BitVec 8)} {src dst rnd : BitVec 32} {ok : Bool} {a : TcpArrival} :
      tcpInput data src dst = some a → arrivesSlot s.pcbs a = some i →
      PcbStep s i (.input data src dst rnd ok) (tcpSegmentArrivesPcb (s.pcbs i) a rnd).pcb
  | listen {t : Fin n} {l : IpEndpoint} {f : Option IpEndpoint} {ok : Bool} :
      tcpPcbAlloc s.pcbs = some i →
      PcbStep s i (.call t (.openRfc793 l f false) ok)
        { s.pcbs i with «local» := l, foreign := f.getD (s.pcbs i).foreign, state := .listen }
  | close {e : Event n} : PcbStep s i e { s.pcbs i with state := .closed }
  | free {e : Event n} : PcbStep s i e TcpPcb.zero
  | take {e : Event n} {size : Nat} : (s.pcbs i).state = .established →
      PcbStep s i e (tcpReceiveTake (s.pcbs i) size).1
  | advance {e : Event n} {slen : Nat} : slen ≤ sendCap (s.pcbs i).snd →
      PcbStep s i e (sendAdvance (s.pcbs i) slen)

/-- Every slot of `pcbs` is one a step `e` from `s` can leave. -/
def TableStep (s : Sys n) (e : Event n) (pcbs : Slot → TcpPcb) : Prop := ∀ i, PcbStep s i e (pcbs i)

section TableStep

variable {s s₀ : Sys n} {e : Event n}

theorem TableStep.keep (h : s₀.pcbs = s.pcbs) : TableStep s e s₀.pcbs := fun _ => h ▸ .keep

theorem TableStep.update {i : Slot} {p : TcpPcb} (h : PcbStep s i e p) :
    TableStep s e (Function.update s.pcbs i p) := by
  intro j
  by_cases hj : j = i
  · subst hj; rw [Function.update_same]; exact h
  · rw [Function.update_noteq hj]; exact .keep

theorem TableStep.release (h : s₀.pcbs = s.pcbs) (i : Slot) : TableStep s e (s₀.release i).pcbs := by
  unfold Sys.release
  split
  · exact .keep h
  · simpa [h] using TableStep.update .free

theorem TableStep.closeRelease (h : s₀.pcbs = s.pcbs) (i : Slot) :
    TableStep s e (s₀.closeRelease i).pcbs := by
  unfold Sys.closeRelease Sys.release
  split
  · simpa [h] using TableStep.update .close
  · simpa [h] using TableStep.update .free

theorem TableStep.ret (h : TableStep s e s₀.pcbs) (t : Fin n) (r : Int) (d : List (BitVec 8)) :
    TableStep s e (s₀.ret t r d).pcbs := h

end TableStep

/-! ### Function by function -/

section Functions

variable {s s₀ : Sys n} (h : s₀.pcbs = s.pcbs)
include h

theorem tableStep_openCall {t : Fin n} {l : IpEndpoint} {f : Option IpEndpoint} {active ok : Bool} :
    TableStep s (.call t (.openRfc793 l f active) ok) (openCall s₀ t l f active).pcbs := by
  unfold openCall
  cases ha : tcpPcbAlloc s₀.pcbs with
  | none => exact TableStep.keep h
  | some i =>
    cases active with
    | true =>
      simp only [if_true, ret_pcbs]
      unfold Sys.release
      split
      · simpa [h] using TableStep.update .close
      · simpa [h] using TableStep.update .free
    | false =>
      simp only [Bool.false_eq_true, if_false, setThr_pcbs, setPcb_pcbs, Function.update_idem,
        Function.update_same]
      rw [h] at ha ⊢
      exact TableStep.update (.listen ha)

theorem tableStep_closeCall {t : Fin n} {id : Int} {ok : Bool} :
    TableStep s e (closeCall s₀ t id ok).pcbs := by
  unfold closeCall
  split
  · exact TableStep.keep h
  · exact (TableStep.release (by simp [h]) _).ret _ _ _

theorem tableStep_sendRetry {t : Fin n} {i : Slot} {data : List (BitVec 8)} {sent : Nat} :
    TableStep s e (sendRetry route s₀ t i data sent).pcbs := by
  unfold sendRetry
  split
  · split
    · exact TableStep.keep h
    · exact TableStep.keep h
  · exact TableStep.keep h

theorem tableStep_recvRetry {t : Fin n} {i : Slot} {size : Nat} :
    TableStep s e (recvRetry s₀ t i size).pcbs := by
  unfold recvRetry
  dsimp only
  split
  · split
    · exact TableStep.keep h
    · rename_i hs _
      rw [ret_pcbs, setPcb_pcbs, h]
      exact TableStep.update (.take (h ▸ hs))
  · exact TableStep.keep h

theorem tableStep_sendIter {t : Fin n} {i : Slot} {data : List (BitVec 8)} {sent mss : Nat} {ok : Bool} :
    TableStep s e (sendIter s₀ t i data sent mss ok).pcbs := by
  unfold sendIter
  dsimp only
  split
  · split
    · exact TableStep.keep h
    · split
      · rw [setThr_pcbs, setPcb_pcbs, emit_pcbs, h]
        exact TableStep.update (.advance (Nat.min_le_right _ _ : sendLen _ _ _ _ ≤ _))
      · exact (TableStep.closeRelease (by simp [h]) _).ret _ _ _
  · exact TableStep.keep h

theorem tableStep_openCheck {t : Fin n} {i : Slot} {st : TcpPcbState} :
    TableStep s e (openCheck s₀ t i st).pcbs := by
  unfold openCheck
  split
  · exact TableStep.keep h
  split
  · exact TableStep.keep h
  split
  · exact TableStep.keep h
  · exact (TableStep.closeRelease h _).ret _ _ _

theorem tableStep_openResume {t : Fin n} {i : Slot} {st : TcpPcbState} {w : Wake} :
    TableStep s e (openResume s₀ t i st w).pcbs := by
  unfold openResume
  split
  · exact (TableStep.closeRelease (by simp [h]) _).ret _ _ _
  · exact tableStep_openCheck (by simp [h])

theorem tableStep_sendResume {t : Fin n} {i : Slot} {data : List (BitVec 8)} {sent : Nat} {w : Wake} :
    TableStep s e (sendResume route s₀ t i data sent w).pcbs := by
  unfold sendResume
  split
  · exact TableStep.keep h
  · exact tableStep_sendRetry h

theorem tableStep_recvResume {t : Fin n} {i : Slot} {size : Nat} {w : Wake} :
    TableStep s e (recvResume s₀ t i size w).pcbs := by
  unfold recvResume
  split
  · exact TableStep.keep h
  · exact tableStep_recvRetry h

end Functions

theorem tableStep_callStep {s : Sys n} {t : Fin n} {c : Call} {ok : Bool} :
    TableStep s (.call t c ok) (callStep route (s.emit (.call t c)) t ok c).pcbs := by
  have h : (s.emit (.call t c)).pcbs = s.pcbs := rfl
  cases c with
  | openRfc793 l f active => exact tableStep_openCall h
  | send id data =>
    simp only [callStep]
    split
    · exact TableStep.keep h
    · exact tableStep_sendRetry h
  | receive id size =>
    simp only [callStep]
    split
    · exact TableStep.keep h
    · exact tableStep_recvRetry h
  | close id => exact tableStep_closeCall h

theorem tableStep_input {s : Sys n} {data : List (BitVec 8)} {src dst rnd : BitVec 32} {ok : Bool} :
    TableStep s (.input data src dst rnd ok) ((tcpInput data src dst).elim s fun a => arrive s a rnd ok).pcbs := by
  cases ha : tcpInput data src dst with
  | none => exact TableStep.keep rfl
  | some a =>
    cases hi : arrivesSlot s.pcbs a with
    | none => exact TableStep.keep (arrive_pcbs_of_none rnd ok hi)
    | some j =>
      show TableStep s _ (arrive s a rnd ok).pcbs
      rw [arrive_pcbs_of_slot rnd ok hi]
      exact TableStep.update (.arrive ha hi)

/-- **What a step leaves in each slot.** -/
theorem pcbStep_of_step {s s' : Sys n} {e : Event n} (h : step route s e = some s') :
    TableStep s e s'.pcbs := by
  rcases step_cases h with ⟨_, _, _, _, _, rfl, -, rfl⟩ | ⟨rfl, -, rfl⟩ | ⟨_, _, _, rfl, -, -, rfl⟩ |
      ⟨_, _, _, _, _, _, rfl, -, rfl⟩ | ⟨_, _, _, _, _, rfl, -, -, -, rfl⟩ |
      ⟨_, _, _, _, _, _, rfl, -, -, -, rfl⟩ | ⟨_, _, _, _, _, rfl, -, -, -, rfl⟩
  · exact tableStep_input
  · exact TableStep.keep rfl
  · exact tableStep_callStep
  · exact tableStep_sendIter rfl
  · exact tableStep_openResume rfl
  · exact tableStep_sendResume rfl
  · exact tableStep_recvResume rfl

/-! ### FREE slots -/

/-- A step leaves a FREE slot in one of two ways: zeroed, or as it was.  An
arrival at a FREE PCB that `tcp_pcb_select` matched changes nothing, and the
send capacity of a zeroed PCB is 0, so `tcp_send` advances nothing there. -/
theorem free_pcbStep {s : Sys n} {e : Event n} {i : Slot} {p : TcpPcb}
    (hz : (s.pcbs i).state = .free → s.pcbs i = TcpPcb.zero) (h : PcbStep s i e p) (hf : p.state = .free) :
    p = TcpPcb.zero := by
  cases h with
  | keep => exact hz hf
  | @arrive _ _ _ rnd _ a =>
    by_cases h0 : (s.pcbs i).state = .free
    · rw [tcpSegmentArrivesPcb_other (by simp [h0]) (by simp [h0])] at hf ⊢
      exact hz hf
    · exact absurd hf (tcpSegmentArrivesPcb_state_ne_free a rnd h0)
  | listen => cases hf
  | close => cases hf
  | free => rfl
  | take hs => simp [tcpReceiveTake, hs] at hf
  | @advance _ slen hslen =>
    have h0 := hz hf
    have hslen0 : slen = 0 := by rw [h0] at hslen; exact Nat.le_zero.mp hslen
    rw [hslen0, h0]
    simp [sendAdvance, TcpPcb.zero]

theorem zero_of_free {ok : Sys n → Event n → Prop} {s : Sys n} (h : Reachable route ok s) (i : Slot)
    (hf : (s.pcbs i).state = .free) : s.pcbs i = TcpPcb.zero := by
  induction h generalizing i with
  | init => rfl
  | step _ _ hs ih => exact free_pcbStep (ih i) (pcbStep_of_step hs i) hf

/-- **A FREE slot holds nothing.**  In every state reachable with defined
behaviour each FREE slot is the zeroed PCB that `tcp_pcb_release` leaves. -/
theorem free_slot_zero {s : Sys n} (h : Reachable route Defined s) (i : Slot)
    (hf : (s.pcbs i).state = .free) : s.pcbs i = TcpPcb.zero :=
  zero_of_free h i hf

theorem free_slot_zero_closed :
    ∃ s, runIf (fun _ => some 1500) Defined (Sys.init 1)
        (handshake 0 ⟨0x0a000002, 80⟩ ⟨0x0a000005, 40000⟩ 1000 500 4096 ++
          [.run 0 true, .call 0 (.close 0) true]) = some s ∧
      (s.pcbs 0).state = .free ∧ s.pcbs 0 = TcpPcb.zero := by
  obtain ⟨s, hs, hf⟩ := exists_of_decide (P := fun s : Sys 1 => (s.pcbs 0).state = .free)
    (o := runIf (fun _ => some 1500) Defined (Sys.init 1)
      (handshake 0 ⟨0x0a000002, 80⟩ ⟨0x0a000005, 40000⟩ 1000 500 4096 ++
        [.run 0 true, .call 0 (.close 0) true])) (by decide)
  exact ⟨s, hs, hf, free_slot_zero (Reachable.init.runIf _ hs) 0 hf⟩

/-! ### The lifecycle of a PCB -/

/-- The states this stack puts a PCB in: it implements neither the active open
nor the closing handshake. -/
def TcpPcbState.implemented : TcpPcbState → Bool
  | .free | .closed | .listen | .synReceived | .established => true
  | _ => false

/-- One move of a PCB through its lifecycle as this stack implements it: no
change, set CLOSED, released, a passive open of a FREE slot, or one of the two
steps of the handshake.  RFC 793 has more (an RST back to LISTEN, the active
open, the closing states), and a move back or past a step of the handshake is
not among them. -/
def Lifecycle (p q : TcpPcbState) : Prop :=
  q = p ∨ q = .closed ∨ q = .free ∨ (p = .free ∧ q = .listen) ∨ (p = .listen ∧ q = .synReceived) ∨
    (p = .synReceived ∧ q = .established)

instance (p q : TcpPcbState) : Decidable (Lifecycle p q) := inferInstanceAs (Decidable (_ ∨ _))

theorem Lifecycle.implemented {p q : TcpPcbState} (h : Lifecycle p q) (hp : p.implemented = true) :
    q.implemented = true := by
  rcases h with rfl | rfl | rfl | ⟨-, rfl⟩ | ⟨-, rfl⟩ | ⟨-, rfl⟩ <;> first | exact hp | rfl

theorem lifecycle_arrive (pcb : TcpPcb) (a : TcpArrival) (rnd : BitVec 32) :
    Lifecycle pcb.state (tcpSegmentArrivesPcb pcb a rnd).pcb.state := by
  rcases tcpSegmentArrivesPcb_cases pcb a rnd with ⟨hl, h⟩ | ⟨hsync, h⟩ | h <;> rw [h]
  · rcases arrivesListen_state pcb a rnd with h' | h' <;> rw [h']
    · exact .inl rfl
    · exact .inr (.inr (.inr (.inr (.inl ⟨hl, rfl⟩))))
  · have hst : (arrivesSynchronized pcb a).pcb.state = pcb.state ∨
        (arrivesSynchronized pcb a).pcb.state = .established := by
      rcases arrivesSynchronized_cases pcb a with h' | ⟨-, ⟨-, h'⟩ | ⟨_, -, h'⟩⟩ <;> rw [h'] <;> simp
    rcases hst with h' | h' <;> rw [h']
    · exact .inl rfl
    · rcases hsync with h'' | h'' <;> rw [h'']
      · exact .inr (.inr (.inr (.inr (.inr ⟨rfl, rfl⟩))))
      · exact .inl rfl
  · exact .inl rfl

/-- **Each slot moves along the lifecycle** in every step a slot can take. -/
theorem lifecycle_pcbStep {s : Sys n} {e : Event n} {i : Slot} {p : TcpPcb} (h : PcbStep s i e p) :
    Lifecycle (s.pcbs i).state p.state := by
  cases h with
  | keep => exact .inl rfl
  | arrive => exact lifecycle_arrive _ _ _
  | listen ha => exact .inr (.inr (.inr (.inl ⟨tcpPcbAlloc_some ha, rfl⟩)))
  | close => exact .inr (.inl rfl)
  | free => exact .inr (.inr (.inl rfl))
  | take => exact .inl rfl
  | advance => exact .inl rfl

/-- **Every step of the stack with defined behaviour moves each PCB along its
lifecycle.**  An overrunning copy would write past its PCB, which the model
does not follow, so the step is required to be `Defined`. -/
theorem step_lifecycle {s s' : Sys n} {e : Event n} (hs : step route s e = some s') (_ : Defined s e)
    (i : Slot) : Lifecycle (s.pcbs i).state (s'.pcbs i).state :=
  lifecycle_pcbStep (pcbStep_of_step hs i)

theorem step_lifecycle_syn :
    ∃ s s', run (fun _ => some 1500) (Sys.init 1) [.call 0 (.openRfc793 ⟨0x0a000002, 80⟩ none false) true] =
        some s ∧
      step (fun _ => some 1500) s (.segment ⟨1000, 0, flgSyn, 4096, [], ⟨0x0a000005, 40000⟩, ⟨0x0a000002, 80⟩⟩ 500 true) =
        some s' ∧
      Defined s (.segment ⟨1000, 0, flgSyn, 4096, [], ⟨0x0a000005, 40000⟩, ⟨0x0a000002, 80⟩⟩ 500 true) ∧
      (s.pcbs 0).state = .listen ∧ (s'.pcbs 0).state = .synReceived ∧
      Lifecycle (s.pcbs 0).state (s'.pcbs 0).state := by
  obtain ⟨s, hs, hd, hl, hst⟩ := exists_of_decide
    (P := fun s : Sys 1 =>
      Defined s (.segment ⟨1000, 0, flgSyn, 4096, [], ⟨0x0a000005, 40000⟩, ⟨0x0a000002, 80⟩⟩ 500 true) ∧
      (s.pcbs 0).state = .listen ∧ ((step (fun _ => some 1500) s
        (.segment ⟨1000, 0, flgSyn, 4096, [], ⟨0x0a000005, 40000⟩, ⟨0x0a000002, 80⟩⟩ 500 true)).map
          fun s' => decide ((s'.pcbs 0).state = .synReceived)) = some true)
    (o := run (fun _ => some 1500) (Sys.init 1) [.call 0 (.openRfc793 ⟨0x0a000002, 80⟩ none false) true])
    (by decide)
  obtain ⟨s', hs', hsyn⟩ := Option.map_eq_some'.mp hst
  exact ⟨s, s', hs, hs', hd, hl, of_decide_eq_true hsyn, step_lifecycle hs' hd 0⟩

/-- **No PCB is ever in a state this stack does not implement**: in every
state reachable with defined behaviour each PCB is FREE, CLOSED, LISTEN,
SYN_RECEIVED or ESTABLISHED. -/
theorem implemented_of_reachable {s : Sys n} (h : Reachable route Defined s) (i : Slot) :
    (s.pcbs i).state.implemented = true := by
  induction h generalizing i with
  | init => rfl
  | step _ _ hs ih => exact (lifecycle_pcbStep (pcbStep_of_step hs i)).implemented (ih i)

theorem implemented_of_reachable_handshake :
    ∃ s, runIf (fun _ => some 1500) Defined (Sys.init 1)
        (handshake 0 ⟨0x0a000002, 80⟩ ⟨0x0a000005, 40000⟩ 1000 500 4096) = some s ∧
      (s.pcbs 0).state = .established ∧ ∀ i, (s.pcbs i).state.implemented = true := by
  obtain ⟨s, hs, he⟩ := exists_of_decide (P := fun s : Sys 1 => (s.pcbs 0).state = .established)
    (o := runIf (fun _ => some 1500) Defined (Sys.init 1)
      (handshake 0 ⟨0x0a000002, 80⟩ ⟨0x0a000005, 40000⟩ 1000 500 4096)) (by decide)
  exact ⟨s, hs, he, implemented_of_reachable (Reachable.init.runIf _ hs)⟩

end Microps.Tcp
