import Microps.Tcp.Sleep

/-!
# Progress

Two things make a user call return: the loop of `tcp_send` ending, and
`event_handler` interrupting the sleepers.

One iteration of the loop of `tcp_send` sends
`slen = MIN(MIN(mss, len - sent), cap)` bytes: with no capacity the thread goes
to sleep, when `ip_output` fails or everything is sent it returns, and
otherwise `sent` grows by `slen`.  With a positive `mss` the iteration that
stays in the loop sends at least one byte (`sendIter_progress`), so
`len - sent` is a measure, and `send_loop_exits` bounds the loop by
`len - sent + 1` iterations whatever `ip_output` returns.

`mss` is a `size_t`, `mtu - 40` modulo `2^64`, and it is 0 exactly when the MTU
is 40 (`mssOf_eq_zero`).  Then `slen` is 0 and an iteration that succeeds
emits an empty segment and changes nothing else (`sendIter_spin`).  The thread
holds the mutex, so no other step can happen (`step_of_not_lockFree`):
`send_spins` proves that the loop then runs for ever and that, as long as
`ip_output` succeeds, no run changes a thread or a PCB.

`event_handler` posts an interrupt to every thread asleep on a PCB that is not
FREE, and no sleeper's PCB is FREE (`SleepInv`).  An interrupt stays pending
whatever is posted after it, so `eventHandler_ends_sleep` proves that every
sleeper can then leave `sched_sleep`, and that its call returns -1, or for
`tcp_send` the bytes it had already sent.

What does not make a call return is an acknowledgement.  `tcp_segment_arrives`
calls `sched_wakeup` when the handshake completes and when it accepts data,
never when an ACK moves `snd.una` or the window, so a thread asleep in
`tcp_send` on a full window is not woken when the window opens
(`arrivesSynchronized_no_wakeup`).  `sender_stalls` proves that it stays
asleep through every run of segments without payload.
-/

namespace Microps.Tcp

variable {n : Nat} {route : BitVec 32 → Option (BitVec 16)}

open Sys

theorem step_run_sendLoop {s : Sys n} {t : Fin n} {i : Slot} {data : List (BitVec 8)} {sent mss : Nat}
    (ht : s.thr t = .sendLoop i data sent mss) (ok : Bool) :
    step route s (.run t ok) = some (sendIter s t i data sent mss ok) := by
  simp only [step, runStep, ht]

/-! ## A positive `mss` -/

/-- One iteration of the loop leaves it, or stays in it with more bytes sent. -/
theorem sendIter_progress (s : Sys n) (t : Fin n) (i : Slot) (data : List (BitVec 8)) {sent mss : Nat}
    (ok : Bool) (hmss : 0 < mss) :
    ((sendIter s t i data sent mss ok).thr t).inLoop = false ∨
      ∃ sent', sent < sent' ∧ (sendIter s t i data sent mss ok).thr t = .sendLoop i data sent' mss := by
  unfold sendIter
  split
  · dsimp only
    split
    · left; simp [Pc.inLoop]
    · split
      · right
        refine ⟨sent + sendLen (s.pcbs i) data sent mss, ?_, by simp⟩
        unfold sendLen
        omega
      · left; simp [Pc.inLoop]
  · left; simp [Pc.inLoop]

/-- An iteration of the loop is defined when `mss` bytes and a header fit the
buffer of `tcp_output_segment`, an MTU of 40 or more. -/
theorem defined_run_sendLoop {s : Sys n} {t : Fin n} {i : Slot} {data : List (BitVec 8)} {sent mss : Nat}
    (ht : s.thr t = .sendLoop i data sent mss) (hmax : mss + tcpHdrSize ≤ ipPayloadSizeMax) (ok : Bool) :
    Defined s (.run t ok) := by
  have : sendLen (s.pcbs i) data sent mss ≤ mss := (Nat.min_le_left _ _).trans (Nat.min_le_left _ _)
  simp only [Defined, defined, ht, decide_eq_true_eq]
  omega

/-- **The loop of `tcp_send` ends.**  With `0 < mss ≤ 65495`, a thread in the
loop with `len - sent` bytes left leaves it within `len - sent + 1`
iterations, whatever each `ip_output` returns (`oks`), and no iteration
overruns the buffer of `tcp_output_segment`. -/
theorem send_loop_exits {s : Sys n} {t : Fin n} {i : Slot} {data : List (BitVec 8)} {sent mss : Nat}
    (ht : s.thr t = .sendLoop i data sent mss) (hmss : 0 < mss) (hmax : mss + tcpHdrSize ≤ ipPayloadSizeMax)
    (oks : List Bool) (hk : data.length - sent < oks.length) :
    ∃ k < oks.length, ∃ s', runIf route Defined s ((oks.take (k + 1)).map (.run t)) = some s' ∧
      (s'.thr t).inLoop = false := by
  induction oks generalizing s sent with
  | nil => simp at hk
  | cons ok oks ih =>
    have hstep : step route s (.run t ok) = _ := step_run_sendLoop ht ok
    have hcons : ∀ es, runIf route Defined s (.run t ok :: es) =
        runIf route Defined (sendIter s t i data sent mss ok) es := fun es => by
      simp only [runIf, if_pos (defined_run_sendLoop ht hmax ok), hstep, Option.some_bind]
    rcases sendIter_progress s t i data ok hmss with hx | ⟨sent', hlt, hx⟩
    · exact ⟨0, by simp, _, by rw [List.take_succ_cons, List.take_zero, List.map_singleton, hcons]; rfl, hx⟩
    · have hs : sent < data.length := by
        by_contra hge
        simp only [sendIter, if_neg hge, ret_thr, Function.update_same] at hx
        cases hx
      obtain ⟨k, hk', s', hr, hout⟩ := ih hx (by simp only [List.length_cons] at hk; omega)
      refine ⟨k + 1, by simp only [List.length_cons]; omega, s', ?_, hout⟩
      rw [List.take_succ_cons, List.map_cons, hcons]
      exact hr

theorem send_loop_exits_three_bytes :
    ∃ s, run (fun _ => some 1500) (Sys.init 1)
        (handshake 0 ⟨0x0a000002, 80⟩ ⟨0x0a000005, 40000⟩ 1000 500 4096 ++
          [.run 0 true, .call 0 (.send 0 [1, 2, 3]) true]) = some s ∧
      s.thr 0 = .sendLoop 0 [1, 2, 3] 0 1460 ∧
      ∃ k < 4, ∃ s', runIf (fun _ => some 1500) Defined s (([true, true, true, true].take (k + 1)).map (.run 0)) =
        some s' ∧ (s'.thr 0).inLoop = false := by
  obtain ⟨s, hs, ht⟩ := exists_of_decide (P := fun s : Sys 1 => s.thr 0 = .sendLoop 0 [1, 2, 3] 0 1460)
    (o := run (fun _ => some 1500) (Sys.init 1)
      (handshake 0 ⟨0x0a000002, 80⟩ ⟨0x0a000005, 40000⟩ 1000 500 4096 ++
        [.run 0 true, .call 0 (.send 0 [1, 2, 3]) true])) (by decide)
  exact ⟨s, hs, ht, send_loop_exits ht (by decide) (by decide) [true, true, true, true] (by decide)⟩

/-! ## An MTU of 40 -/

theorem mssOf_eq_zero (mtu : BitVec 16) : mssOf mtu = 0 ↔ mtu = 40 := by
  have := mtu.isLt
  constructor
  · intro h
    apply BitVec.eq_of_toNat_eq
    simp only [mssOf] at h
    show mtu.toNat = 40
    omega
  · rintro rfl
    rfl

/-- With `mss = 0` an iteration that succeeds sends nothing: only an empty
segment is emitted, and the threads and the PCBs stay as they are. -/
theorem sendIter_spin {s : Sys n} {t : Fin n} {i : Slot} {data : List (BitVec 8)} {sent : Nat}
    (ht : s.thr t = .sendLoop i data sent 0) (hs : sent < data.length) (hc : sendCap (s.pcbs i).snd ≠ 0) :
    (sendIter s t i data sent 0 true).thr = s.thr ∧ (sendIter s t i data sent 0 true).pcbs = s.pcbs := by
  have h0 : sendLen (s.pcbs i) data sent 0 = 0 := by simp [sendLen]
  have hadv : sendAdvance (s.pcbs i) 0 = s.pcbs i := by simp [sendAdvance]
  simp only [sendIter, if_pos hs, if_neg hc, if_true, h0, hadv, Nat.add_zero, setThr_thr, setThr_pcbs,
    setPcb_thr, setPcb_pcbs, emit_pcbs, emit_thr]
  exact ⟨by rw [← ht, Function.update_eq_self], Function.update_eq_self _ _⟩

section Spin

variable {s : Sys n} {t : Fin n} {i : Slot} {data : List (BitVec 8)} {sent : Nat}
  (ht : s.thr t = .sendLoop i data sent 0) (hs : sent < data.length) (hc : sendCap (s.pcbs i).snd ≠ 0)
include ht hs hc

/-- A state with the threads and the PCBs of `s` takes an iteration of `t`
that leads to another such state. -/
theorem spin_step {s₁ : Sys n} (hthr : s₁.thr = s.thr) (hpcbs : s₁.pcbs = s.pcbs) :
    step route s₁ (.run t true) = some (sendIter s₁ t i data sent 0 true) ∧
      (sendIter s₁ t i data sent 0 true).thr = s.thr ∧ (sendIter s₁ t i data sent 0 true).pcbs = s.pcbs := by
  have ht₁ : s₁.thr t = .sendLoop i data sent 0 := by rw [hthr, ht]
  obtain ⟨h1, h2⟩ := sendIter_spin ht₁ hs (by rw [hpcbs]; exact hc)
  exact ⟨step_run_sendLoop ht₁ true, h1.trans hthr, h2.trans hpcbs⟩

theorem spin_runs (k : Nat) {s₁ : Sys n} (hthr : s₁.thr = s.thr) (hpcbs : s₁.pcbs = s.pcbs) :
    ∃ s', run route s₁ (List.replicate k (.run t true)) = some s' := by
  induction k generalizing s₁ with
  | zero => exact ⟨_, rfl⟩
  | succ k ih =>
    obtain ⟨hstep, h1, h2⟩ := spin_step ht hs hc hthr hpcbs
    rw [List.replicate_succ, run_cons_of_step _ hstep]
    exact ih h1 h2

/-- With every other thread out of the loop, a run from a state with the
threads and the PCBs of `s` in which `ip_output` succeeds ends in another. -/
theorem spin_keeps (hloop : ∀ u, u ≠ t → (s.thr u).inLoop = false) (es : List (Event n))
    (hok : ∀ e ∈ es, ∀ u ok, e = .run u ok → ok = true) {s₁ s' : Sys n} (hthr : s₁.thr = s.thr)
    (hpcbs : s₁.pcbs = s.pcbs) (hr : run route s₁ es = some s') : s'.thr = s.thr ∧ s'.pcbs = s.pcbs := by
  induction es generalizing s₁ with
  | nil =>
    cases hr
    exact ⟨hthr, hpcbs⟩
  | cons e es ih =>
    have hl : s₁.lockFree = false := by
      simp only [lockFree, decide_eq_false_iff_not, not_forall, Bool.not_eq_false, hthr]
      exact ⟨t, by rw [ht]; rfl⟩
    cases hstep : step route s₁ e with
    | none => simp [run, hstep] at hr
    | some s₂ =>
      obtain ⟨u, ok, rfl, hu⟩ := step_of_not_lockFree hl hstep
      have hut : u = t := by
        by_contra hne
        rw [hthr, hloop u hne] at hu
        cases hu
      subst hut
      obtain rfl := hok _ (List.mem_cons_self _ _) u ok rfl
      obtain ⟨hstep', h1, h2⟩ := spin_step ht hs hc hthr hpcbs
      rw [run_cons_of_step _ hstep'] at hr
      exact ih (fun e he => hok e (List.mem_cons_of_mem _ he)) h1 h2 hr

end Spin

/-- **`tcp_send` spins for ever on an MTU of 40.**  In a reachable state where a
thread is in the loop with `mss = 0`, bytes left and a positive capacity, the
loop runs any number of iterations, and every run in which `ip_output`
succeeds leaves every thread and every PCB as they are: the thread holds the
mutex, and each of its iterations sends nothing. -/
theorem send_spins {s : Sys n} {t : Fin n} {i : Slot} {data : List (BitVec 8)} {sent : Nat}
    (h : Reachable route (fun _ _ => True) s) (ht : s.thr t = .sendLoop i data sent 0)
    (hs : sent < data.length) (hc : sendCap (s.pcbs i).snd ≠ 0) :
    (∀ k, ∃ s', run route s (List.replicate k (.run t true)) = some s') ∧
    ∀ (es : List (Event n)) (s' : Sys n), (∀ e ∈ es, ∀ u ok, e = .run u ok → ok = true) →
      run route s es = some s' → s'.thr = s.thr ∧ s'.pcbs = s.pcbs :=
  ⟨fun k => spin_runs ht hs hc k rfl rfl, fun es _ hok hr =>
    spin_keeps ht hs hc ((sleepInv_of_reachable h).loop t (by rw [ht]; rfl)) es hok rfl rfl hr⟩

theorem send_spins_mtu_40 :
    ∃ s, run (fun _ => some 40) (Sys.init 1)
        (handshake 0 ⟨0x0a000002, 80⟩ ⟨0x0a000005, 40000⟩ 1000 500 4096 ++
          [.run 0 true, .call 0 (.send 0 [1, 2, 3]) true]) = some s ∧
      s.thr 0 = .sendLoop 0 [1, 2, 3] 0 0 ∧
      (∀ k, ∃ s', run (fun _ => some 40) s (List.replicate k (.run 0 true)) = some s') ∧
      ∀ (es : List (Event 1)) (s' : Sys 1), (∀ e ∈ es, ∀ u ok, e = .run u ok → ok = true) →
        run (fun _ => some 40) s es = some s' → s'.thr = s.thr ∧ s'.pcbs = s.pcbs := by
  obtain ⟨s, hs, ht, hc⟩ := exists_of_decide
    (P := fun s : Sys 1 => s.thr 0 = .sendLoop 0 [1, 2, 3] 0 0 ∧ sendCap (s.pcbs 0).snd ≠ 0)
    (o := run (fun _ => some 40) (Sys.init 1)
      (handshake 0 ⟨0x0a000002, 80⟩ ⟨0x0a000005, 40000⟩ 1000 500 4096 ++
        [.run 0 true, .call 0 (.send 0 [1, 2, 3]) true])) (by decide)
  exact ⟨s, hs, ht, send_spins (Reachable.of_run hs) ht (by decide) hc⟩

/-! ## `event_handler` -/

/-- What a call interrupted in `sched_sleep` returns: -1, or for `tcp_send`
the bytes it had sent, if any. -/
def Pc.interruptedRet : Pc → Int
  | .sendWait _ _ sent _ => if sent = 0 then -1 else sent
  | _ => -1

@[simp] theorem Wake.post_interrupt (w : Wake) : w.post .interrupt = .interrupt := by
  unfold Wake.post; split <;> rfl

theorem lockFree_eventHandler (s : Sys n) : (eventHandler s).lockFree = s.lockFree := by
  have h : ∀ t, ((eventHandler s).thr t).inLoop = (s.thr t).inLoop := by
    intro t
    simp only [eventHandler]
    split
    · split
      · rfl
      · exact Pc.inLoop_post _ _
    · rfl
  simp only [lockFree, h]

/-- **`event_handler` ends every blocked call.**  In a state reachable with
defined behaviour and the mutex free, the external event interrupts every
thread asleep in the stack: each can then leave `sched_sleep` at once, and its
call returns -1, or for `tcp_send` the bytes it had already sent. -/
theorem eventHandler_ends_sleep {s : Sys n} (h : Reachable route Defined s)
    (hl : s.lockFree = true) {t : Fin n} (ht : (s.thr t).waitsOn ≠ none) (ok : Bool) :
    step route s .interrupt = some (eventHandler s) ∧
    ∃ s', step route (eventHandler s) (.run t ok) = some s' ∧ s'.thr t = .idle ∧
      s'.out.getLast? = some (.ret t (s.thr t).interruptedRet []) := by
  have hok := (sleepInv_of_reachable h).thr t
  have hl' : (eventHandler s).lockFree = true := by rw [lockFree_eventHandler, hl]
  obtain ⟨i, hi⟩ := Option.ne_none_iff_exists'.mp ht
  have hthr : (eventHandler s).thr t = (s.thr t).post .interrupt := by
    have hf : (s.pcbs i).state ≠ .free := by
      cases hs : s.thr t <;> rw [hs] at hok hi <;> simp only [Pc.waitsOn, reduceCtorEq, Option.some.injEq] at hi
      all_goals subst hi; exact hok.1
    simp only [eventHandler, hi, hf, if_false]
  refine ⟨by simp only [step, hl, if_true], ?_⟩
  cases hs : s.thr t with
  | idle => rw [hs] at ht; exact absurd rfl ht
  | sendLoop => rw [hs] at ht; exact absurd rfl ht
  | openWait i st w =>
    rw [hs, Pc.post, Wake.post_interrupt] at hthr
    refine ⟨openResume (eventHandler s) t i st .interrupt, ?_, ?_, ?_⟩
    · simp only [step, runStep, hthr, hl', ne_eq, reduceCtorEq, not_false_eq_true, and_self, if_true]
    · simp [openResume]
    · simp [openResume, Pc.interruptedRet]
  | sendWait i data sent w =>
    rw [hs, Pc.post, Wake.post_interrupt] at hthr
    refine ⟨sendResume route (eventHandler s) t i data sent .interrupt, ?_, ?_, ?_⟩
    · simp only [step, runStep, hthr, hl', ne_eq, reduceCtorEq, not_false_eq_true, and_self, if_true]
    · simp [sendResume]
    · simp [sendResume, Pc.interruptedRet]
  | recvWait i size w =>
    rw [hs, Pc.post, Wake.post_interrupt] at hthr
    refine ⟨recvResume (eventHandler s) t i size .interrupt, ?_, ?_, ?_⟩
    · simp only [step, runStep, hthr, hl', ne_eq, reduceCtorEq, not_false_eq_true, and_self, if_true]
    · simp [recvResume]
    · simp [recvResume, Pc.interruptedRet]

theorem eventHandler_ends_sleep_receiver :
    ∃ s, runIf (fun _ => some 1500) Defined (Sys.init 1)
        (handshake 0 ⟨0x0a000002, 80⟩ ⟨0x0a000005, 40000⟩ 1000 500 4096 ++
          [.run 0 true, .call 0 (.receive 0 10) true]) = some s ∧
      s.thr 0 = .recvWait 0 10 .none ∧ s.lockFree = true ∧
      step (fun _ => some 1500) s .interrupt = some (eventHandler s) ∧
      ∃ s', step (fun _ => some 1500) (eventHandler s) (.run 0 true) = some s' ∧ s'.thr 0 = .idle ∧
        s'.out.getLast? = some (.ret 0 (s.thr 0).interruptedRet []) := by
  obtain ⟨s, hs, ht, hl⟩ := exists_of_decide
    (P := fun s : Sys 1 => s.thr 0 = .recvWait 0 10 .none ∧ s.lockFree = true)
    (o := runIf (fun _ => some 1500) Defined (Sys.init 1)
      (handshake 0 ⟨0x0a000002, 80⟩ ⟨0x0a000005, 40000⟩ 1000 500 4096 ++
        [.run 0 true, .call 0 (.receive 0 10) true])) (by decide)
  exact ⟨s, hs, ht, hl, eventHandler_ends_sleep (Reachable.init.runIf _ hs) hl (by rw [ht]; decide) true⟩

/-! ## Acknowledgements -/

/-- A segment from IP that carries no payload, as `tcp_input` reads it (or
that `tcp_input` drops). -/
def Event.payloadFree : Event n → Bool
  | .input data src dst _ _ => ((tcpInput data src dst).map fun a => decide (a.len = 0)).getD true
  | _ => false

/-- At an ESTABLISHED PCB an arrival without payload wakes no one, and the PCB
stays ESTABLISHED: only the handshake and accepted data call `sched_wakeup`. -/
theorem arrivesSynchronized_no_wakeup {pcb : TcpPcb} {a : TcpArrival} (hst : pcb.state = .established)
    (hlen : a.len = 0) :
    (arrivesSynchronized pcb a).wakeup = false ∧ (arrivesSynchronized pcb a).pcb.state = .established := by
  unfold arrivesSynchronized processAck
  split
  · exact ⟨rfl, hst⟩
  split
  · exact ⟨rfl, hst⟩
  simp only [hst, reduceCtorEq, false_and, if_false]
  split <;> simp [processText, hlen]

section Stall

variable {t : Fin n} {i : Slot} {data : List (BitVec 8)} {sent : Nat}

/-- One payload-free arrival leaves a sender asleep on an ESTABLISHED PCB
asleep, and the PCB ESTABLISHED. -/
theorem stall_step {s s' : Sys n} {e : Event n} (ht : s.thr t = .sendWait i data sent .none)
    (hst : (s.pcbs i).state = .established) (he : e.payloadFree = true) (hs : step route s e = some s') :
    s'.thr t = s.thr t ∧ (s'.pcbs i).state = .established := by
  cases e with
  | input bytes src dst rnd ok =>
    simp only [step] at hs
    split at hs
    · cases hs
      cases ha : tcpInput bytes src dst with
      | none => exact ⟨rfl, hst⟩
      | some a =>
        have hlen : a.len = 0 := by simpa [Event.payloadFree, ha] using he
        simp only [Option.elim]
        cases hj : arrivesSlot s.pcbs a with
        | none => exact ⟨by rw [arrive_thr_of_none rnd ok hj], by rw [arrive_pcbs_of_none rnd ok hj]; exact hst⟩
        | some j =>
          rw [arrive_thr_of_slot rnd ok hj, arrive_pcbs_of_slot rnd ok hj]
          by_cases hji : j = i
          · subst hji
            have hw := arrivesSynchronized_no_wakeup hst hlen (a := a)
            rw [tcpSegmentArrivesPcb_synchronized (.inr hst)]
            simp [hw.1, hw.2]
          · simp [ht, Pc.waitsOn, Ne.symm hji, Function.update_noteq (Ne.symm hji), hst]
    · cases hs
  | _ => cases he

/-- A run of payload-free arrivals leaves the sender asleep with nothing pending. -/
theorem stall_run {s s' : Sys n} (ht : s.thr t = .sendWait i data sent .none)
    (hst : (s.pcbs i).state = .established) {es : List (Event n)} (hes : ∀ e ∈ es, e.payloadFree = true)
    (hr : run route s es = some s') : s'.thr t = .sendWait i data sent .none := by
  induction es generalizing s with
  | nil => cases hr; exact ht
  | cons e es ih =>
    cases hs : step route s e with
    | none => simp [run, hs] at hr
    | some s₁ =>
      rw [run_cons_of_step _ hs] at hr
      obtain ⟨h1, h2⟩ := stall_step ht hst (hes e (List.mem_cons_self _ _)) hs
      exact ih (h1.trans ht) h2 (fun e he => hes e (List.mem_cons_of_mem _ he)) hr

end Stall

/-- **Acknowledgements never resume a blocked `tcp_send`.**  In a state
reachable with defined behaviour, a thread asleep in `tcp_send` with nothing
pending stays asleep, with nothing pending, through every run of segments
without payload: the peer's ACKs may reopen the window, but only data, a
release of the PCB or `event_handler` post a wakeup to it. -/
theorem sender_stalls {s s' : Sys n} (h : Reachable route Defined s) {t : Fin n} {i : Slot}
    {data : List (BitVec 8)} {sent : Nat} (ht : s.thr t = .sendWait i data sent .none)
    {es : List (Event n)} (hes : ∀ e ∈ es, e.payloadFree = true) (hr : run route s es = some s') :
    s'.thr t = .sendWait i data sent .none ∧ ∀ ok, step route s' (.run t ok) = none := by
  have hok := (sleepInv_of_reachable h).thr t
  rw [ht] at hok
  have hst : (s.pcbs i).state = .established := hok.2.resolve_left (fun hne => hne rfl)
  have ht' := stall_run ht hst hes hr
  exact ⟨ht', fun ok => by simp [step, runStep, ht']⟩

theorem sender_stalls_window_open :
    ∃ s s', runIf (fun _ => some 1500) Defined (Sys.init 1)
        (handshake 0 ⟨0x0a000002, 80⟩ ⟨0x0a000005, 40000⟩ 1000 500 4 ++
          [.run 0 true, .call 0 (.send 0 [1, 2, 3, 4, 5, 6, 7, 8]) true, .run 0 true, .run 0 true]) = some s ∧
      run (fun _ => some 1500) s
        [.segment ⟨1001, 505, flgAck, 4, [], ⟨0x0a000005, 40000⟩, ⟨0x0a000002, 80⟩⟩ 0 true] = some s' ∧
      sendCap (s'.pcbs 0).snd = 4 ∧
      s'.thr 0 = .sendWait 0 [1, 2, 3, 4, 5, 6, 7, 8] 4 .none ∧
      ∀ ok, step (fun _ => some 1500) s' (.run 0 ok) = none := by
  obtain ⟨s, hs, ht⟩ := exists_of_decide
    (P := fun s : Sys 1 => s.thr 0 = .sendWait 0 [1, 2, 3, 4, 5, 6, 7, 8] 4 .none)
    (o := runIf (fun _ => some 1500) Defined (Sys.init 1)
      (handshake 0 ⟨0x0a000002, 80⟩ ⟨0x0a000005, 40000⟩ 1000 500 4 ++
        [.run 0 true, .call 0 (.send 0 [1, 2, 3, 4, 5, 6, 7, 8]) true, .run 0 true, .run 0 true])) (by decide)
  obtain ⟨s', hs', hc⟩ := exists_of_decide (P := fun s' : Sys 1 => sendCap (s'.pcbs 0).snd = 4)
    (o := run (fun _ => some 1500) (Sys.init 1)
      (handshake 0 ⟨0x0a000002, 80⟩ ⟨0x0a000005, 40000⟩ 1000 500 4 ++
        [.run 0 true, .call 0 (.send 0 [1, 2, 3, 4, 5, 6, 7, 8]) true, .run 0 true, .run 0 true] ++
        [.segment ⟨1001, 505, flgAck, 4, [], ⟨0x0a000005, 40000⟩, ⟨0x0a000002, 80⟩⟩ 0 true])) (by decide)
  rw [run_append_of_some (run_of_runIf _ hs)] at hs'
  exact ⟨s, s', hs, hs', hc, sender_stalls (Reachable.init.runIf _ hs) ht (by decide) hs'⟩

end Microps.Tcp
