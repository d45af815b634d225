import Microps.Tcp.Opener
import Microps.Tcp.Progress

/-!
# What the external event reclaims

`event_handler` interrupts every sleeper on a slot that is not FREE.  A sleeper
of `tcp_open_rfc793` that wakes interrupted sets its PCB CLOSED and calls
`tcp_pcb_release`, which zeroes the slot only if no other thread sleeps on it.
This file proves that none does:

* `keeps_step`: a thread that has a wakeup or an interrupt pending after a step
  sleeps where it slept before, and in the same call.  Every function a thread
  runs leaves the other threads' waits as they were up to a post (`Keeps`), and
  ends with its own thread idle or asleep with nothing pending (`Acts`).
* `onlyOpeners_of_reachable`: every thread asleep on a LISTEN or SYN_RECEIVED
  PCB is its opener.  `tcp_send` and `tcp_receive` sleep only on an
  ESTABLISHED PCB, and no step makes a PCB half open under a sleeper
  (`halfOpen_pcbStep`).

With `Owned`, `interrupt_frees_half_open`: after the external event the opener
of each half-open PCB returns -1 and the slot is FREE again.
-/

namespace Microps.Tcp

variable {n : Nat} {route : BitVec 32 → Option (BitVec 16)}

open Sys

/-- The wake pending for a sleeper; none for a thread that does not sleep. -/
def Pc.wake : Pc → Wake
  | .openWait _ _ w | .sendWait _ _ _ w | .recvWait _ _ w => w
  | _ => .none

@[simp] theorem Pc.waitsOn_post (p : Pc) (w : Wake) : (p.post w).waitsOn = p.waitsOn := by
  cases p <;> rfl

/-! ### Threads a step does not start -/

/-- From `s₁` to `s₂` every thread but `t` keeps the slot it sleeps on and the
slot it opens. -/
def Keeps (s₁ s₂ : Sys n) (t : Fin n) : Prop :=
  ∀ u, u ≠ t → (s₂.thr u).waitsOn = (s₁.thr u).waitsOn ∧ (s₂.thr u).opens = (s₁.thr u).opens

/-- `Keeps`, and `t` ends the step with nothing pending. -/
structure Acts (s₁ s₂ : Sys n) (t : Fin n) : Prop where
  keeps : Keeps s₁ s₂ t
  own : (s₂.thr t).wake = .none

section Keeps

variable {s s₀ s₁ s₂ s₃ : Sys n} {t : Fin n}

theorem Keeps.trans (h₁ : Keeps s₁ s₂ t) (h₂ : Keeps s₂ s₃ t) : Keeps s₁ s₃ t := fun u hu =>
  ⟨(h₂ u hu).1.trans (h₁ u hu).1, (h₂ u hu).2.trans (h₁ u hu).2⟩

theorem Keeps.of_thr (h : s₂.thr = s₁.thr) : Keeps s₁ s₂ t := fun _ _ => by rw [h]; exact ⟨rfl, rfl⟩

theorem Keeps.refl : Keeps s s t := .of_thr rfl

theorem Keeps.setPcb (i : Slot) (q : TcpPcb) : Keeps s (s.setPcb i q) t := .of_thr rfl

theorem Keeps.emit (o : Out n) : Keeps s (s.emit o) t := .of_thr rfl

theorem Keeps.post (i : Slot) (w : Wake) : Keeps s (s.post i w) t := fun u _ => by
  simp only [post_thr]; split <;> simp

theorem Keeps.release (i : Slot) : Keeps s (s.release i) t := by
  unfold Sys.release; split
  · exact .post i _
  · exact .of_thr rfl

theorem Keeps.closeRelease (i : Slot) : Keeps s (s.closeRelease i) t :=
  (Keeps.setPcb i _).trans (.release i)

theorem Keeps.setThr (p : Pc) : Keeps s (s.setThr t p) t := fun u hu => by
  simp [Function.update_noteq hu]

theorem Acts.setThr {p : Pc} (h : Keeps s₀ s t) (hp : p.wake = .none) : Acts s₀ (s.setThr t p) t :=
  ⟨h.trans (.setThr p), by simpa using hp⟩

theorem Acts.ret (h : Keeps s₀ s t) (r : Int) (d : List (BitVec 8)) : Acts s₀ (s.ret t r d) t :=
  ⟨h.trans ((Keeps.setThr .idle).trans (.emit _)), by simp [Pc.wake]⟩

theorem Keeps.openCheck {i : Slot} {st : TcpPcbState} (h : Keeps s₀ s t) : Acts s₀ (openCheck s t i st) t := by
  unfold Microps.Tcp.openCheck
  split
  · exact .setThr h rfl
  split
  · exact .ret h _ _
  split
  · exact .setThr h rfl
  · exact .ret (h.trans (.closeRelease i)) _ _

theorem Keeps.sendRetry {i : Slot} {data : List (BitVec 8)} {sent : Nat} (h : Keeps s₀ s t) :
    Acts s₀ (sendRetry route s t i data sent) t := by
  unfold Microps.Tcp.sendRetry
  split
  · split
    · exact .ret h _ _
    · exact .setThr h rfl
  · exact .ret h _ _

theorem Keeps.recvRetry {i : Slot} {size : Nat} (h : Keeps s₀ s t) : Acts s₀ (recvRetry s t i size) t := by
  unfold Microps.Tcp.recvRetry
  dsimp only
  split
  · split
    · exact .setThr h rfl
    · exact .ret (h.trans (.setPcb _ _)) _ _
  · exact .ret h _ _

theorem acts_callStep {ok : Bool} (c : Call) : Acts s (callStep route (s.emit (.call t c)) t ok c) t := by
  have h : Keeps s (s.emit (.call t c)) t := .of_thr rfl
  cases c with
  | openRfc793 l f active =>
    simp only [Microps.Tcp.callStep, openCall]
    split
    · exact .ret h _ _
    · split
      · exact .ret ((h.trans (.setPcb _ _)).trans (.release _)) _ _
      · exact .setThr ((h.trans (.setPcb _ _)).trans (.setPcb _ _)) rfl
  | send id data =>
    simp only [Microps.Tcp.callStep]
    split
    · exact .ret h _ _
    · exact h.sendRetry
  | receive id size =>
    simp only [Microps.Tcp.callStep]
    split
    · exact .ret h _ _
    · exact h.recvRetry
  | close id =>
    simp only [Microps.Tcp.callStep, closeCall]
    split
    · exact .ret h _ _
    · exact .ret ((h.trans (.emit _)).trans (.release _)) _ _

theorem acts_sendIter {i : Slot} {data : List (BitVec 8)} {sent mss : Nat} {ok : Bool} :
    Acts s (sendIter s t i data sent mss ok) t := by
  unfold sendIter
  dsimp only
  split
  · split
    · exact .setThr .refl rfl
    · split
      · exact .setThr ((Keeps.emit _).trans (.setPcb _ _)) rfl
      · exact .ret ((Keeps.emit _).trans (.closeRelease _)) _ _
  · exact .ret .refl _ _

theorem acts_openResume {i : Slot} {st : TcpPcbState} {w : Wake} : Acts s (openResume s t i st w) t := by
  unfold openResume
  dsimp only
  split
  · exact .ret ((Keeps.setThr .idle).trans (.closeRelease _)) _ _
  · exact (Keeps.setThr .idle).openCheck

theorem acts_sendResume {i : Slot} {data : List (BitVec 8)} {sent : Nat} {w : Wake} :
    Acts s (sendResume route s t i data sent w) t := by
  unfold sendResume
  split
  · exact .ret .refl _ _
  · exact Keeps.refl.sendRetry

theorem acts_recvResume {i : Slot} {size : Nat} {w : Wake} : Acts s (recvResume s t i size w) t := by
  unfold recvResume
  split
  · exact .ret .refl _ _
  · exact Keeps.refl.recvRetry

end Keeps

theorem Acts.of_wake {s₁ s₂ : Sys n} {t u : Fin n} (h : Acts s₁ s₂ t) (hw : (s₂.thr u).wake ≠ .none) :
    (s₂.thr u).waitsOn = (s₁.thr u).waitsOn ∧ (s₂.thr u).opens = (s₁.thr u).opens :=
  h.keeps u fun hu => hw (hu ▸ h.own)

/-- **Only the thread that acts starts to sleep.**  A thread with something
pending after a step sleeps on the slot it slept on before, and in the same
call. -/
theorem keeps_step {s s' : Sys n} {e : Event n} (hs : step route s e = some s') (u : Fin n)
    (hw : (s'.thr u).wake ≠ .none) :
    (s'.thr u).waitsOn = (s.thr u).waitsOn ∧ (s'.thr u).opens = (s.thr u).opens := by
  rcases step_cases hs with ⟨data, src, dst, rnd, ok, -, -, rfl⟩ | ⟨-, -, rfl⟩ | ⟨t, c, ok, -, -, -, rfl⟩ |
      ⟨t, ok, i, data, sent, mss, -, -, rfl⟩ | ⟨t, ok, i, st, w, -, -, -, -, rfl⟩ |
      ⟨t, ok, i, data, sent, w, -, -, -, -, rfl⟩ | ⟨t, ok, i, size, w, -, -, -, -, rfl⟩
  · cases tcpInput data src dst with
    | none => exact ⟨rfl, rfl⟩
    | some a =>
      cases hi : arrivesSlot s.pcbs a with
      | none => simp only [Option.elim, arrive_thr_of_none rnd ok hi, and_self]
      | some i => simp only [Option.elim, arrive_thr_of_slot rnd ok hi]; split <;> simp
  · simp only [eventHandler]
    split
    · split <;> simp
    · exact ⟨rfl, rfl⟩
  · exact (acts_callStep c).of_wake hw
  · exact acts_sendIter.of_wake hw
  · exact acts_openResume.of_wake hw
  · exact acts_sendResume.of_wake hw
  · exact acts_recvResume.of_wake hw

/-! ### Who sleeps on a half-open slot -/

theorem ThrOk.waitsOn_not_free {pcbs : Slot → TcpPcb} {p : Pc} {i : Slot} (hp : ThrOk pcbs p)
    (h : p.waitsOn = some i) : (pcbs i).state ≠ .free := by
  cases p with
  | openWait | sendWait | recvWait => cases h; exact hp.1
  | idle | sendLoop => cases h

/-- A sleeper with nothing pending on a half-open slot is its opener: `tcp_send`
and `tcp_receive` sleep only on an ESTABLISHED PCB. -/
theorem ThrOk.opens_of_halfOpen {pcbs : Slot → TcpPcb} {p : Pc} {i : Slot} (hp : ThrOk pcbs p)
    (hw : p.wake = .none) (h : p.waitsOn = some i) (hh : (pcbs i).state.halfOpen = true) :
    p.opens = some i := by
  cases p with
  | openWait => exact h
  | sendWait j _ _ w =>
    cases h
    rcases hp.2 with hne | hest
    · exact absurd hw hne
    · rw [hest] at hh; cases hh
  | recvWait j _ w =>
    cases h
    rcases hp.2 with hne | ⟨hest, -⟩
    · exact absurd hw hne
    · rw [hest] at hh; cases hh
  | idle | sendLoop => cases h

/-- A slot a step leaves half open was half open, or FREE. -/
theorem halfOpen_pcbStep {s : Sys n} {e : Event n} {i : Slot} {p : TcpPcb} (h : PcbStep s i e p)
    (hf : (s.pcbs i).state ≠ .free) (hp : p.state.halfOpen = true) : (s.pcbs i).state.halfOpen = true := by
  rcases lifecycle_pcbStep h with h' | h' | h' | ⟨h', -⟩ | ⟨h', -⟩ | ⟨-, h'⟩
  · rwa [h'] at hp
  · rw [h'] at hp; cases hp
  · rw [h'] at hp; cases hp
  · exact absurd h' hf
  · rw [h']; rfl
  · rw [h'] at hp; cases hp

/-- Every thread asleep on a half-open slot is asleep in `tcp_open_rfc793`. -/
def OnlyOpeners (s : Sys n) : Prop :=
  ∀ u i, (s.thr u).waitsOn = some i → (s.pcbs i).state.halfOpen = true → (s.thr u).opens = some i

theorem OnlyOpeners.step {s s' : Sys n} {e : Event n} (h : OnlyOpeners s) (hi : SleepInv s)
    (hs : step route s e = some s') : OnlyOpeners s' := by
  intro u i hw hh
  by_cases hwk : (s'.thr u).wake = .none
  · exact ((hi.step hs).thr u).opens_of_halfOpen hwk hw hh
  · obtain ⟨hw', ho'⟩ := keeps_step hs u hwk
    rw [hw'] at hw
    rw [ho']
    exact h u i hw (halfOpen_pcbStep (pcbStep_of_step hs i) ((hi.thr u).waitsOn_not_free hw) hh)

theorem onlyOpeners_of_reachable {ok : Sys n → Event n → Prop} {s : Sys n} (h : Reachable route ok s) :
    OnlyOpeners s := by
  induction h with
  | init => intro u i hw; cases hw
  | step hr _ hs ih => exact ih.step (sleepInv_of_reachable hr) hs

@[simp] theorem hasWaiter_setPcb (s : Sys n) (i j : Slot) (q : TcpPcb) :
    (s.setPcb i q).hasWaiter j = s.hasWaiter j := rfl

@[simp] theorem waitsOn_eventHandler_thr (s : Sys n) (u : Fin n) :
    ((eventHandler s).thr u).waitsOn = (s.thr u).waitsOn := by
  simp only [eventHandler]
  split
  · split <;> simp
  · rfl

/-- **The external event frees every half-open PCB.**  In a state reachable
with defined behaviour and the mutex free, after `event_handler` the opener of a LISTEN or
SYN_RECEIVED PCB can leave `sched_sleep`: `tcp_open_rfc793` returns -1 and the
slot is zeroed, FREE for the next `tcp_pcb_alloc`.  No other thread can be
asleep on the slot, so `tcp_pcb_release` has no waiter to leave it for. -/
theorem interrupt_frees_half_open {s : Sys n} (h : Reachable route Defined s)
    (hl : s.lockFree = true) {i : Slot} (hi : (s.pcbs i).state = .listen ∨ (s.pcbs i).state = .synReceived)
    (ok : Bool) :
    step route s .interrupt = some (eventHandler s) ∧
    ∃ t s', step route (eventHandler s) (.run t ok) = some s' ∧
      s'.pcbs = Function.update s.pcbs i TcpPcb.zero ∧ s'.thr t = .idle ∧
      s'.out.getLast? = some (.ret t (-1) []) := by
  have hh : (s.pcbs i).state.halfOpen = true := by rcases hi with hi | hi <;> simp [hi, TcpPcbState.halfOpen]
  have ho := owned_of_reachable h
  obtain ⟨t, hto⟩ := ho.owner i hh
  obtain ⟨st, w, ht⟩ := Pc.opens_eq_some.mp hto
  have hf : (s.pcbs i).state ≠ .free := ((sleepInv_of_reachable h).thr t).waitsOn_not_free (by rw [ht]; rfl)
  have hthr : (eventHandler s).thr t = .openWait i st .interrupt := by
    simp [eventHandler, ht, Pc.waitsOn, hf, Pc.post]
  have hnw : ((eventHandler s).setThr t .idle).hasWaiter i = false := by
    rw [hasWaiter, decide_eq_false_iff_not]
    rintro ⟨u, hu⟩
    by_cases hut : u = t
    · subst hut; simp [Pc.waitsOn] at hu
    · rw [setThr_thr, Function.update_noteq hut, waitsOn_eventHandler_thr] at hu
      exact hut (ho.unique u t i (onlyOpeners_of_reachable h u i hu hh) hto)
  refine ⟨by simp only [step, hl, if_true], t, openResume (eventHandler s) t i st .interrupt, ?_, ?_, ?_, ?_⟩
  · simp only [step, runStep, hthr, lockFree_eventHandler, hl, ne_eq, reduceCtorEq, not_false_eq_true,
      and_self, if_true]
  · simp only [openResume, if_true, ret, closeRelease, Sys.release, hasWaiter_setPcb, hnw, emit_pcbs,
      setThr_pcbs, setPcb_pcbs, Function.update_idem, Bool.false_eq_true, if_false]
    rfl
  · simp [openResume]
  · simp [openResume]

theorem interrupt_frees_half_open_synReceived :
    ∃ s, runIf (fun _ => some 1500) Defined (Sys.init 2)
        [.call 0 (.openRfc793 ⟨0x0a000002, 80⟩ none false) true,
         .segment ⟨1000, 0, flgSyn, 4096, [], ⟨0x0a000005, 40000⟩, ⟨0x0a000002, 80⟩⟩ 500 true] = some s ∧
      s.lockFree = true ∧ (s.pcbs 0).state = .synReceived ∧
      step (fun _ => some 1500) s .interrupt = some (eventHandler s) ∧
      ∃ t s', step (fun _ => some 1500) (eventHandler s) (.run t true) = some s' ∧
        s'.pcbs = Function.update s.pcbs 0 TcpPcb.zero ∧ s'.thr t = .idle ∧
        s'.out.getLast? = some (.ret t (-1) []) := by
  obtain ⟨s, hs, hl, hsyn⟩ := exists_of_decide
    (P := fun s : Sys 2 => s.lockFree = true ∧ (s.pcbs 0).state = .synReceived)
    (o := runIf (fun _ => some 1500) Defined (Sys.init 2)
      [.call 0 (.openRfc793 ⟨0x0a000002, 80⟩ none false) true,
       .segment ⟨1000, 0, flgSyn, 4096, [], ⟨0x0a000005, 40000⟩, ⟨0x0a000002, 80⟩⟩ 500 true])
    (by decide)
  exact ⟨s, hs, hl, hsyn, interrupt_frees_half_open (Reachable.init.runIf _ hs) hl (.inr hsyn) true⟩

end Microps.Tcp
