import Microps.Tcp.Sleep

/-!
# Refused calls

A user call that returns `-1` in the step it enters the stack was refused:
`tcp_open_rfc793` found no free slot or was asked for an active open,
`tcp_send` or `tcp_receive` found no PCB for the handle, a PCB that is not
ESTABLISHED or no route, and `tcp_close` found no PCB.  The active open is the
one refusal that writes: it allocates a slot, makes it CLOSED and releases it.

`refused_call_no_effect` proves that from every state reachable with defined
behaviour a refused call changes nothing but the output, which records the
call and its `-1`: no sleeper waits on the FREE slot the active open takes, so
the release zeroes it, and a FREE slot of such a state is already zero.
-/

namespace Microps.Tcp

variable {n : Nat} {route : BitVec 32 → Option (BitVec 16)}

open Sys

/-- No sleeper waits on a FREE slot of a state where every sleeper is well placed. -/
theorem hasWaiter_free {s : Sys n} {i : Slot} (hs : SleepInv s) (hf : (s.pcbs i).state = .free) :
    s.hasWaiter i = false := by
  rw [hasWaiter, decide_eq_false_iff_not]
  rintro ⟨u, hu⟩
  have hl : (s.thr u).inLoop = false := by
    revert hu; cases s.thr u <;> simp [Pc.waitsOn, Pc.inLoop]
  exact (hs.thr u).state_ne_free hl (by rw [Pc.slot_eq_waitsOn hl]; exact hu) hf

/-- A call of an idle thread whose last output is `-1` for it left the table and
the threads as they were, in every state where sleepers are well placed and
FREE slots are zero. -/
theorem callStep_refused {s : Sys n} {t : Fin n} {ok : Bool} {c : Call} (hs : SleepInv s)
    (hz : ∀ i, (s.pcbs i).state = .free → s.pcbs i = TcpPcb.zero) (ht : s.thr t = .idle)
    (hr : (callStep route (s.emit (.call t c)) t ok c).out.getLast? = some (.ret t (-1) [])) :
    (callStep route (s.emit (.call t c)) t ok c).pcbs = s.pcbs ∧
      (callStep route (s.emit (.call t c)) t ok c).thr = s.thr ∧
      (callStep route (s.emit (.call t c)) t ok c).out = s.out ++ [.call t c, .ret t (-1) []] := by
  have hret : ((s.emit (.call t c)).ret t (-1) []).pcbs = s.pcbs ∧
      ((s.emit (.call t c)).ret t (-1) []).thr = s.thr ∧
      ((s.emit (.call t c)).ret t (-1) []).out = s.out ++ [.call t c, .ret t (-1) []] := by
    simp [ht]
  cases c with
  | openRfc793 l f active =>
    simp only [callStep, openCall, emit_pcbs] at hr ⊢
    cases ha : tcpPcbAlloc s.pcbs with
    | none => exact hret
    | some i =>
      have hfree := tcpPcbAlloc_some ha
      cases active with
      | true =>
        have hw := hasWaiter_free hs hfree
        simp only [hasWaiter] at hw
        simp [ha, release, hasWaiter, hw, Function.update_idem, hz i hfree, ht]
      | false => simp [ha] at hr
  | send id data =>
    simp only [callStep, emit_pcbs] at hr ⊢
    cases hg : tcpPcbGet s.pcbs id with
    | none => exact hret
    | some i =>
      simp only [hg, sendRetry, emit_pcbs] at hr ⊢
      split at hr
      · rw [if_pos ‹_›]
        cases hroute : route (s.pcbs i).foreign.addr with
        | none => exact hret
        | some mtu => simp [hroute] at hr
      · rw [if_neg ‹_›]; exact hret
  | receive id size =>
    simp only [callStep, emit_pcbs] at hr ⊢
    cases hg : tcpPcbGet s.pcbs id with
    | none => exact hret
    | some i =>
      simp only [hg, recvRetry, emit_pcbs] at hr ⊢
      split at hr
      · split at hr
        · simp at hr
        · simp at hr; omega
      · rw [if_neg ‹_›]; exact hret
  | close id =>
    simp only [callStep, closeCall, emit_pcbs] at hr ⊢
    cases hg : tcpPcbGet s.pcbs id with
    | none => exact hret
    | some i => simp [hg] at hr

/-- **A refused call has no effect.**  From every state reachable with defined
behaviour, a user call that returns `-1` in the step it is made leaves every
PCB and every thread as they were, and adds only the call and its `-1` to the
output: no segment is sent and no sleeper is woken, the active open's slot
included. -/
theorem refused_call_no_effect {s s' : Sys n} {t : Fin n} {c : Call} {ok : Bool}
    (h : Reachable route Defined s) (hs : step route s (.call t c ok) = some s')
    (hr : s'.out.getLast? = some (.ret t (-1) [])) :
    s'.pcbs = s.pcbs ∧ s'.thr = s.thr ∧ s'.out = s.out ++ [.call t c, .ret t (-1) []] := by
  simp only [step] at hs
  split at hs
  · cases hs
    exact callStep_refused (sleepInv_of_reachable h) (zero_of_free h) ‹_ ∧ _›.2 hr
  · cases hs

theorem refused_call_no_effect_active :
    ∃ s s', runIf (fun _ => some 1500) Defined (Sys.init 2)
        [.call 0 (.openRfc793 ⟨0x0a000002, 80⟩ none false) true] = some s ∧
      step (fun _ => some 1500) s (.call 1 (.openRfc793 ⟨0x0a000002, 81⟩ (some ⟨0x0a000005, 7⟩) true) true) =
        some s' ∧
      s'.out.getLast? = some (.ret 1 (-1) []) ∧ s'.pcbs = s.pcbs ∧ s'.thr = s.thr ∧
      s'.out = s.out ++ [.call 1 (.openRfc793 ⟨0x0a000002, 81⟩ (some ⟨0x0a000005, 7⟩) true), .ret 1 (-1) []] := by
  obtain ⟨s, hs, hst⟩ := exists_of_decide
    (P := fun s : Sys 2 => ((step (fun _ => some 1500) s
      (.call 1 (.openRfc793 ⟨0x0a000002, 81⟩ (some ⟨0x0a000005, 7⟩) true) true)).map
        fun s' => decide (s'.out.getLast? = some (.ret 1 (-1) []))) = some true)
    (o := runIf (fun _ => some 1500) Defined (Sys.init 2) [.call 0 (.openRfc793 ⟨0x0a000002, 80⟩ none false) true])
    (by decide)
  obtain ⟨s', hs', hr⟩ := Option.map_eq_some'.mp hst
  exact ⟨s, s', hs, hs', of_decide_eq_true hr,
    refused_call_no_effect (Reachable.init.runIf _ hs) hs' (of_decide_eq_true hr)⟩

end Microps.Tcp
