import Microps.Tcp.Sleep

/-!
# Half-open PCBs and their openers

A passive `tcp_open_rfc793` takes a FREE slot, sets it LISTEN and sleeps on it
until the handshake has brought it to ESTABLISHED.  Nothing else sets a PCB
LISTEN, and only an arrival at a LISTEN PCB makes one SYN_RECEIVED, so a
half-open PCB always has its opener asleep on it.  `Owned` says that each
LISTEN or SYN_RECEIVED slot has a thread in the wait of `tcp_open_rfc793` on
it and that no slot has two; `half_open_owned` proves it of every state
reachable with defined behaviour.

Every step but one only takes from what `Owned` counts (`Shrinks`): no slot
becomes half open, no thread starts to wait in `tcp_open_rfc793`, and a thread
that stops waiting there leaves its slot no longer half open.  `Shrinks`
composes, and each update of the state is one, so each function is a chain of
them.  The passive open is the step that adds an opener, on a slot that was
FREE and so, by `SleepInv`, had no sleeper.

`close_keeps_half_open` reads a consequence off the invariant: `tcp_close` on
a half-open PCB returns 0 but never releases it, since its opener is still
asleep on it; the release only wakes the opener.
-/

namespace Microps.Tcp

variable {n : Nat} {route : BitVec 32 → Option (BitVec 16)}

open Sys

/-- The slot a thread waits on in `tcp_open_rfc793`. -/
def Pc.opens : Pc → Option Slot
  | .openWait i _ _ => some i
  | _ => none

@[simp] theorem Pc.opens_post (p : Pc) (w : Wake) : (p.post w).opens = p.opens := by
  cases p <;> rfl

@[simp] theorem Pc.opens_idle : Pc.idle.opens = none := rfl

theorem Pc.state_ne_free_of_opens {pcbs : Slot → TcpPcb} {p : Pc} {i : Slot} (hp : ThrOk pcbs p)
    (h : p.opens = some i) : (pcbs i).state ≠ .free := by
  cases p with
  | openWait j _ _ => cases h; exact hp.1
  | _ => cases h

/-- LISTEN or SYN_RECEIVED: a PCB its passive open still waits on. -/
def TcpPcbState.halfOpen : TcpPcbState → Bool
  | .listen | .synReceived => true
  | _ => false

/-- Each half-open slot has a thread asleep in `tcp_open_rfc793` on it, and no
slot has two. -/
structure Owned (s : Sys n) : Prop where
  owner : ∀ i, (s.pcbs i).state.halfOpen = true → ∃ t, (s.thr t).opens = some i
  unique : ∀ t u i, (s.thr t).opens = some i → (s.thr u).opens = some i → t = u

/-- From `s₁` to `s₂` no slot becomes half open, no thread starts to wait in
`tcp_open_rfc793`, and a thread that stops waiting there leaves its slot no
longer half open. -/
structure Shrinks (s₁ s₂ : Sys n) : Prop where
  half : ∀ i, (s₂.pcbs i).state.halfOpen = true → (s₁.pcbs i).state.halfOpen = true
  opens : ∀ u, (s₂.thr u).opens = (s₁.thr u).opens ∨
    ((s₂.thr u).opens = none ∧ ∀ i, (s₁.thr u).opens = some i → (s₂.pcbs i).state.halfOpen = false)

section Shrinks

variable {s s₁ s₂ s₃ : Sys n}

theorem Shrinks.opens_some (h : Shrinks s₁ s₂) {u : Fin n} {i : Slot} (hu : (s₂.thr u).opens = some i) :
    (s₁.thr u).opens = some i := by
  rcases h.opens u with h' | ⟨h', -⟩
  · rwa [← h']
  · rw [h'] at hu; cases hu

theorem Shrinks.not_half (h : Shrinks s₁ s₂) {i : Slot} (hi : (s₁.pcbs i).state.halfOpen = false) :
    (s₂.pcbs i).state.halfOpen = false :=
  Bool.eq_false_iff.2 fun h' => by simp [h.half i h'] at hi

theorem Owned.shrinks (h : Owned s₁) (hs : Shrinks s₁ s₂) : Owned s₂ where
  owner i hi := by
    obtain ⟨t, ht⟩ := h.owner i (hs.half i hi)
    rcases hs.opens t with h' | ⟨-, h'⟩
    · exact ⟨t, h'.trans ht⟩
    · rw [h' i ht] at hi; cases hi
  unique t u i ht hu := h.unique t u i (hs.opens_some ht) (hs.opens_some hu)

theorem Shrinks.trans (h₁ : Shrinks s₁ s₂) (h₂ : Shrinks s₂ s₃) : Shrinks s₁ s₃ where
  half i hi := h₁.half i (h₂.half i hi)
  opens u := by
    rcases h₁.opens u with h | ⟨h, hn⟩
    · rcases h₂.opens u with h' | ⟨h', hn'⟩
      · exact .inl (h'.trans h)
      · exact .inr ⟨h', fun i hi => hn' i (h.trans hi)⟩
    · refine .inr ⟨?_, fun i hi => h₂.not_half (hn i hi)⟩
      rcases h₂.opens u with h' | ⟨h', -⟩
      · exact h'.trans h
      · exact h'

/-- A step that writes at most slot `i`, with nothing half open that was not,
and leaves every thread's wait in `tcp_open_rfc793` as it was. -/
theorem Shrinks.update {i : Slot} {q : TcpPcb} (hp : s₂.pcbs = Function.update s₁.pcbs i q)
    (hq : q.state.halfOpen = true → (s₁.pcbs i).state.halfOpen = true)
    (ht : ∀ u, (s₂.thr u).opens = (s₁.thr u).opens) : Shrinks s₁ s₂ where
  half j hj := by
    rw [hp] at hj
    by_cases hji : j = i
    · subst hji; exact hq (by simpa using hj)
    · simpa [Function.update_noteq hji] using hj
  opens u := .inl (ht u)

theorem Shrinks.of_eq (hp : s₂.pcbs = s₁.pcbs) (ht : ∀ u, (s₂.thr u).opens = (s₁.thr u).opens) :
    Shrinks s₁ s₂ :=
  .update (i := 0) (q := s₁.pcbs 0) (by rw [hp, Function.update_eq_self]) id ht

@[simp] theorem opens_post_thr (s : Sys n) (i : Slot) (w : Wake) (u : Fin n) :
    ((s.post i w).thr u).opens = (s.thr u).opens := by
  simp only [post_thr]; split <;> simp

@[simp] theorem opens_release_thr (s : Sys n) (i : Slot) (u : Fin n) :
    ((s.release i).thr u).opens = (s.thr u).opens := by
  unfold Sys.release
  split
  · exact opens_post_thr s i _ u
  · rfl

@[simp] theorem opens_closeRelease_thr (s : Sys n) (i : Slot) (u : Fin n) :
    ((s.closeRelease i).thr u).opens = (s.thr u).opens := by
  simp [Sys.closeRelease]

theorem closeRelease_not_halfOpen (s : Sys n) (i : Slot) :
    ((s.closeRelease i).pcbs i).state.halfOpen = false := by
  unfold Sys.closeRelease Sys.release; split <;> simp [TcpPcbState.halfOpen]

theorem Shrinks.emit (o : Out n) : Shrinks s (s.emit o) := .of_eq rfl fun _ => rfl

theorem Shrinks.setPcb {i : Slot} {q : TcpPcb} (hq : q.state.halfOpen = true → (s.pcbs i).state.halfOpen = true) :
    Shrinks s (s.setPcb i q) :=
  .update rfl hq fun _ => rfl

theorem Shrinks.release (i : Slot) : Shrinks s (s.release i) := by
  unfold Sys.release
  split
  · exact .of_eq rfl (opens_post_thr s i _)
  · exact .setPcb (by simp [TcpPcbState.halfOpen])

theorem Shrinks.closeRelease (i : Slot) : Shrinks s (s.closeRelease i) :=
  (Shrinks.setPcb (by simp [TcpPcbState.halfOpen])).trans (.release i)

/-- Thread `t` stops waiting in `tcp_open_rfc793`, if it was, on a slot that is not half open. -/
theorem Shrinks.setThr {t : Fin n} {p : Pc} (hp : p.opens = none)
    (ht : ∀ i, (s.thr t).opens = some i → (s.pcbs i).state.halfOpen = false) : Shrinks s (s.setThr t p) where
  half _ hi := hi
  opens u := by
    by_cases hu : u = t
    · subst hu; exact .inr ⟨by simpa using hp, by simpa using ht⟩
    · exact .inl (by simp [Function.update_noteq hu])

theorem Shrinks.ret {t : Fin n} (ht : ∀ i, (s.thr t).opens = some i → (s.pcbs i).state.halfOpen = false)
    (r : Int) (d : List (BitVec 8)) : Shrinks s (s.ret t r d) :=
  (Shrinks.setThr (by rfl) ht).trans (.emit _)

/-- The opener of slot `i` leaves `sched_sleep` and the slot is set CLOSED and released. -/
theorem Shrinks.setThr_closeRelease {t : Fin n} {p : Pc} {i : Slot} (hp : p.opens = none)
    (ht : ∀ j, (s.thr t).opens = some j → j = i) : Shrinks s ((s.setThr t p).closeRelease i) where
  half j hj := (Shrinks.closeRelease (s := s.setThr t p) i).half j hj
  opens u := by
    by_cases hu : u = t
    · subst hu
      refine .inr ⟨by simpa using hp, fun j hj => ?_⟩
      rw [ht j hj]; exact closeRelease_not_halfOpen _ i
    · exact .inl (by simp [Function.update_noteq hu])

end Shrinks

/-! ### Function by function -/

section Functions

variable {s : Sys n} {t : Fin n}

theorem shrinks_sendRetry (ht : (s.thr t).opens = none) {i : Slot} {data : List (BitVec 8)} {sent : Nat} :
    Shrinks s (sendRetry route s t i data sent) := by
  unfold Microps.Tcp.sendRetry
  split
  · split
    · exact .ret (by simp [ht]) _ _
    · exact .setThr (by rfl) (by simp [ht])
  · exact .ret (by simp [ht]) _ _

theorem shrinks_recvRetry (ht : (s.thr t).opens = none) {i : Slot} {size : Nat} :
    Shrinks s (recvRetry s t i size) := by
  unfold Microps.Tcp.recvRetry
  dsimp only
  split
  · split
    · exact .setThr (by rfl) (by simp [ht])
    · exact (Shrinks.setPcb (by simp [tcpReceiveTake])).trans (.ret (by simp [ht]) _ _)
  · exact .ret (by simp [ht]) _ _

theorem shrinks_closeCall (ht : (s.thr t).opens = none) {id : Int} {ok : Bool} :
    Shrinks s (closeCall s t id ok) := by
  unfold Microps.Tcp.closeCall
  split
  · exact .ret (by simp [ht]) _ _
  · exact ((Shrinks.emit _).trans (.release _)).trans (.ret (by simp [ht]) _ _)

theorem shrinks_sendIter (ht : (s.thr t).opens = none) {i : Slot} {data : List (BitVec 8)} {sent mss : Nat}
    {ok : Bool} : Shrinks s (sendIter s t i data sent mss ok) := by
  unfold Microps.Tcp.sendIter
  dsimp only
  split
  · split
    · exact .setThr (by rfl) (by simp [ht])
    · split
      · exact ((Shrinks.emit _).trans (.setPcb (by simp [sendAdvance]))).trans (.setThr (by rfl) (by simp [ht]))
      · exact ((Shrinks.emit _).trans (.closeRelease i)).trans (.ret (by simp [ht]) _ _)
  · exact .ret (by simp [ht]) _ _

theorem shrinks_sendResume (ht : (s.thr t).opens = none) {i : Slot} {data : List (BitVec 8)} {sent : Nat}
    {w : Wake} : Shrinks s (sendResume route s t i data sent w) := by
  unfold Microps.Tcp.sendResume
  split
  · exact .ret (by simp [ht]) _ _
  · exact shrinks_sendRetry ht

theorem shrinks_recvResume (ht : (s.thr t).opens = none) {i : Slot} {size : Nat} {w : Wake} :
    Shrinks s (recvResume s t i size w) := by
  unfold Microps.Tcp.recvResume
  split
  · exact .ret (by simp [ht]) _ _
  · exact shrinks_recvRetry ht

/-- The opener leaves `sched_sleep`: it sleeps again on the same slot, or
returns with the slot ESTABLISHED, or sets it CLOSED and releases it. -/
theorem shrinks_openResume {i : Slot} {st : TcpPcbState} {w : Wake} (ht : s.thr t = .openWait i st w) :
    Shrinks s (openResume s t i st w) := by
  have hto : ∀ j, (s.thr t).opens = some j → j = i := by simp [ht, Pc.opens]
  have hsleep : ∀ st', Shrinks s ((s.setThr t .idle).setThr t (.openWait i st' .none)) := fun st' =>
    .of_eq rfl fun u => by by_cases hu : u = t <;> simp [hu, ht, Pc.opens, Function.update_noteq]
  unfold Microps.Tcp.openResume Microps.Tcp.openCheck
  dsimp only
  split
  · exact (Shrinks.setThr_closeRelease (by rfl) hto).trans (.ret (by simp) _ _)
  split
  · exact hsleep st
  split
  · rename_i he
    refine (Shrinks.setThr (by rfl) fun j hj => ?_).trans (.ret (by simp) _ _)
    rw [hto j hj, show (s.pcbs i).state = .established from he]; rfl
  split
  · exact hsleep _
  · exact (Shrinks.setThr_closeRelease (by rfl) hto).trans (.ret (by simp) _ _)

/-- The passive open adds the one opener of a slot that was FREE. -/
theorem Owned.openCall (h : Owned s) (hs : SleepInv s) (ht : s.thr t = .idle) {l : IpEndpoint}
    {f : Option IpEndpoint} {active : Bool} : Owned (openCall s t l f active) := by
  have hto : (s.thr t).opens = none := by rw [ht]; rfl
  unfold Microps.Tcp.openCall
  cases ha : tcpPcbAlloc s.pcbs with
  | none => exact h.shrinks (.ret (by simp [hto]) _ _)
  | some i =>
    cases active with
    | true =>
      exact h.shrinks (((Shrinks.setPcb (by simp [TcpPcbState.halfOpen])).trans (.release i)).trans
        (.ret (by simp [hto]) _ _))
    | false =>
      have hno : ∀ u, (s.thr u).opens ≠ some i := fun u hu =>
        Pc.state_ne_free_of_opens (hs.thr u) hu (tcpPcbAlloc_some ha)
      have hopens : ∀ u, ((Function.update s.thr t (.openWait i .listen .none)) u).opens =
          if u = t then some i else (s.thr u).opens := fun u => by
        rw [Function.update_apply]; split_ifs <;> rfl
      simp only [if_false, Bool.false_eq_true]
      constructor
      · intro j hj
        simp only [setThr_pcbs, setPcb_pcbs, Function.update_idem, Function.update_same] at hj
        by_cases hji : j = i
        · exact ⟨t, by simp [hji, Pc.opens]⟩
        · obtain ⟨u, hu⟩ := h.owner j (by simpa [Function.update_noteq hji] using hj)
          have hut : u ≠ t := by rintro rfl; simp [hto] at hu
          exact ⟨u, by simp only [setThr_thr, setPcb_thr, emit_thr, hopens, if_neg hut, hu]⟩
      · intro u v j hu hv
        simp only [setThr_thr, setPcb_thr, hopens] at hu hv
        by_cases hut : u = t <;> by_cases hvt : v = t
        · rw [hut, hvt]
        · simp only [hut, hvt, if_true, if_false, Option.some.injEq] at hu hv
          exact absurd (hu ▸ hv) (hno v)
        · simp only [hut, hvt, if_true, if_false, Option.some.injEq] at hu hv
          exact absurd (hv ▸ hu) (hno u)
        · simp only [hut, hvt, if_false] at hu hv
          exact h.unique u v j hu hv

theorem Owned.callStep (h : Owned s) (hs : SleepInv s) (ht : s.thr t = .idle) {ok : Bool} (c : Call) :
    Owned (callStep route s t ok c) := by
  have hto : (s.thr t).opens = none := by rw [ht]; rfl
  cases c with
  | openRfc793 => exact h.openCall hs ht
  | send id data =>
    simp only [Microps.Tcp.callStep]
    split
    · exact h.shrinks (.ret (by simp [hto]) _ _)
    · exact h.shrinks (shrinks_sendRetry hto)
  | receive id size =>
    simp only [Microps.Tcp.callStep]
    split
    · exact h.shrinks (.ret (by simp [hto]) _ _)
    · exact h.shrinks (shrinks_recvRetry hto)
  | close => exact h.shrinks (shrinks_closeCall hto)

end Functions

/-! ### Arrivals and the external event -/

/-- An arrival makes no PCB half open: LISTEN goes at most to SYN_RECEIVED, and
a FREE PCB that `tcp_pcb_select` matched is left as it was. -/
theorem halfOpen_of_arrives (pcb : TcpPcb) (a : TcpArrival) (rnd : BitVec 32)
    (h : (tcpSegmentArrivesPcb pcb a rnd).pcb.state.halfOpen = true) : pcb.state.halfOpen = true := by
  rcases lifecycle_arrive pcb a rnd with h' | h' | h' | ⟨hf, -⟩ | ⟨h', -⟩ | ⟨-, h'⟩
  · rwa [h'] at h
  · rw [h'] at h; cases h
  · rw [h'] at h; cases h
  · rwa [tcpSegmentArrivesPcb_other (by simp [hf]) (by simp [hf])] at h
  · rw [h']; rfl
  · rw [h'] at h; cases h

theorem shrinks_arrive {s : Sys n} (a : TcpArrival) (rnd : BitVec 32) (ok : Bool) :
    Shrinks s (arrive s a rnd ok) := by
  cases hi : arrivesSlot s.pcbs a with
  | none => exact .of_eq (arrive_pcbs_of_none rnd ok hi) (by simp [arrive_thr_of_none rnd ok hi])
  | some i =>
    refine .update (arrive_pcbs_of_slot rnd ok hi) (halfOpen_of_arrives _ a rnd) fun u => ?_
    rw [arrive_thr_of_slot rnd ok hi]; split <;> simp

theorem shrinks_eventHandler {s : Sys n} : Shrinks s (eventHandler s) :=
  .of_eq rfl fun u => by
    simp only [eventHandler]
    split
    · split <;> simp
    · rfl

/-! ### The invariant -/

section Steps

variable {s s' : Sys n} {e : Event n}

/-- **Each step keeps the openers.** -/
theorem Owned.step (h : Owned s) (hi : SleepInv s) (hs : step route s e = some s') : Owned s' := by
  have hnone : ∀ {t : Fin n} {p : Pc}, s.thr t = p → p.opens = none → (s.thr t).opens = none :=
    fun ht hp => ht ▸ hp
  rcases step_cases hs with ⟨data, src, dst, rnd, ok, -, -, rfl⟩ | ⟨-, -, rfl⟩ | ⟨t, c, ok, -, -, ht, rfl⟩ |
      ⟨t, ok, i, data, sent, mss, -, ht, rfl⟩ | ⟨t, ok, i, st, w, -, ht, -, -, rfl⟩ |
      ⟨t, ok, i, data, sent, w, -, ht, -, -, rfl⟩ | ⟨t, ok, i, size, w, -, ht, -, -, rfl⟩
  · cases tcpInput data src dst with
    | none => exact h
    | some a => exact h.shrinks (shrinks_arrive a rnd ok)
  · exact h.shrinks shrinks_eventHandler
  · exact Owned.callStep (s := s.emit (.call t c)) ⟨h.owner, h.unique⟩ (hi.emit _) ht c
  · exact h.shrinks (shrinks_sendIter (hnone ht rfl))
  · exact h.shrinks (shrinks_openResume ht)
  · exact h.shrinks (shrinks_sendResume (hnone ht rfl))
  · exact h.shrinks (shrinks_recvResume (hnone ht rfl))

theorem owned_of_reachable {ok : Sys n → Event n → Prop} (h : Reachable route ok s) : Owned s := by
  induction h with
  | init => exact ⟨fun _ hi => (nomatch hi), fun _ _ _ ht => (nomatch ht)⟩
  | step hr _ hs ih => exact ih.step (sleepInv_of_reachable hr) hs

end Steps

theorem Pc.opens_eq_some {p : Pc} {i : Slot} : p.opens = some i ↔ ∃ st w, p = .openWait i st w := by
  cases p <;> simp [Pc.opens]

/-- **Every half-open PCB has its opener.**  In every state reachable with
defined behaviour each LISTEN or SYN_RECEIVED PCB has a thread asleep on it in
`tcp_open_rfc793`, and no two threads wait there on the same slot. -/
theorem half_open_owned {s : Sys n} (h : Reachable route Defined s) :
    (∀ i, (s.pcbs i).state = .listen ∨ (s.pcbs i).state = .synReceived →
      ∃ t st w, s.thr t = .openWait i st w) ∧
    ∀ t u i st st' w w', s.thr t = .openWait i st w → s.thr u = .openWait i st' w' → t = u := by
  have ho := owned_of_reachable h
  refine ⟨fun i hi => ?_, fun t u i st st' w w' ht hu => ho.unique t u i (by simp [ht, Pc.opens]) (by simp [hu, Pc.opens])⟩
  obtain ⟨t, ht⟩ := ho.owner i (by rcases hi with hi | hi <;> simp [hi, TcpPcbState.halfOpen])
  exact ⟨t, Pc.opens_eq_some.mp ht⟩

theorem half_open_owned_syn :
    ∃ s, runIf (fun _ => some 1500) Defined (Sys.init 2)
        [.call 0 (.openRfc793 ⟨0x0a000002, 80⟩ none false) true,
         .segment ⟨1000, 0, flgSyn, 4096, [], ⟨0x0a000005, 40000⟩, ⟨0x0a000002, 80⟩⟩ 500 true] = some s ∧
      (s.pcbs 0).state = .synReceived ∧
      (∀ i, (s.pcbs i).state = .listen ∨ (s.pcbs i).state = .synReceived →
        ∃ t st w, s.thr t = .openWait i st w) ∧
      ∀ t u i st st' w w', s.thr t = .openWait i st w → s.thr u = .openWait i st' w' → t = u := by
  obtain ⟨s, hs, hsyn⟩ := exists_of_decide (P := fun s : Sys 2 => (s.pcbs 0).state = .synReceived)
    (o := runIf (fun _ => some 1500) Defined (Sys.init 2)
      [.call 0 (.openRfc793 ⟨0x0a000002, 80⟩ none false) true,
       .segment ⟨1000, 0, flgSyn, 4096, [], ⟨0x0a000005, 40000⟩, ⟨0x0a000002, 80⟩⟩ 500 true])
    (by decide)
  exact ⟨s, hs, hsyn, half_open_owned (Reachable.init.runIf _ hs)⟩

/-! ### `tcp_close` on a half-open PCB -/

/-- **`tcp_close` does not end a passive open.**  In a state reachable with
defined behaviour, `tcp_close` on a LISTEN or SYN_RECEIVED PCB returns 0, but
its release finds the opener asleep on the PCB: it only posts a wakeup to it
and leaves the table as it was. -/
theorem close_keeps_half_open {s s' : Sys n} {t : Fin n} {id : Int} {ok : Bool} {i : Slot}
    (h : Reachable route Defined s) (hs : step route s (.call t (.close id) ok) = some s')
    (hi : tcpPcbGet s.pcbs id = some i) (hh : (s.pcbs i).state = .listen ∨ (s.pcbs i).state = .synReceived) :
    s'.pcbs = s.pcbs ∧ s'.out.getLast? = some (.ret t 0 []) ∧
      ∃ u st w, w ≠ .none ∧ s'.thr u = .openWait i st w := by
  obtain ⟨u, ht⟩ := (owned_of_reachable h).owner i
    (by rcases hh with hh | hh <;> simp [hh, TcpPcbState.halfOpen])
  obtain ⟨st, w, hu⟩ := Pc.opens_eq_some.mp ht
  have hw : (s.hasWaiter i) = true := decide_eq_true ⟨u, by simp [hu, Pc.waitsOn]⟩
  simp only [step] at hs
  split at hs
  · cases hs
    simp only [callStep, closeCall, emit_pcbs, hi, release, emit_thr, hasWaiter] at hw ⊢
    rw [if_pos hw]
    refine ⟨rfl, by simp, u, st, w.post .wakeup, Wake.post_ne_none (by decide), ?_⟩
    have hut : u ≠ t := by rintro rfl; simp_all
    simp [Function.update_noteq hut, hu, Pc.waitsOn, Pc.post]
  · cases hs

theorem close_keeps_half_open_listener :
    ∃ s s', runIf (fun _ => some 1500) Defined (Sys.init 2)
        [.call 0 (.openRfc793 ⟨0x0a000002, 80⟩ none false) true] = some s ∧ step (fun _ => some 1500) s (.call 1 (.close 0) true) = some s' ∧
      tcpPcbGet s.pcbs 0 = some 0 ∧ (s.pcbs 0).state = .listen ∧
      s'.pcbs = s.pcbs ∧ s'.out.getLast? = some (.ret 1 0 []) ∧
      ∃ u st w, w ≠ .none ∧ s'.thr u = .openWait 0 st w := by
  obtain ⟨s, hs, hg, hl, hst⟩ := exists_of_decide
    (P := fun s : Sys 2 => tcpPcbGet s.pcbs 0 = some 0 ∧ (s.pcbs 0).state = .listen ∧
      (step (fun _ => some 1500) s (.call 1 (.close 0) true)).isSome)
    (o := runIf (fun _ => some 1500) Defined (Sys.init 2) [.call 0 (.openRfc793 ⟨0x0a000002, 80⟩ none false) true])
    (by decide)
  obtain ⟨s', hs'⟩ := Option.isSome_iff_exists.mp hst
  exact ⟨s, s', hs, hs', hg, hl, close_keeps_half_open (Reachable.init.runIf _ hs) hs' hg (.inl hl)⟩

end Microps.Tcp
