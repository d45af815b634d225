import Microps.Tcp.Steps

/-!
# One PCB per connection

`tcp_pcb_select` returns the first PCB whose local endpoint matches and whose
foreign endpoint is the segment's, and otherwise a LISTEN PCB with the wildcard
foreign endpoint `(ANY, 0)` (`tcpPcbSelect_exact`).  A LISTEN PCB that takes a
SYN adopts the segment's endpoints.

* `tcpPcbSelect_selected`: for every table, the result is an exact match, or a
  wildcard listener when no PCB matches exactly, or nothing when no PCB of
  either kind exists (`Selected`).
* `select_free_slot`: the loop does not skip FREE slots, and a zeroed slot
  matches a segment from `0.0.0.0:0` to port 0, which is then dropped without
  a reset.

* `duplicate_listeners`: `tcp_open_rfc793` never looks at the table, so two
  passive opens with the same local and foreign endpoints leave two LISTEN PCBs
  with one tuple without wildcards.
* `unique_connections`: when no open names a foreign endpoint, every LISTEN PCB
  has the wildcard foreign endpoint, and a LISTEN PCB adopts a tuple only when
  no PCB holds it exactly; along runs with defined behaviour no two PCBs in
  use ever share a tuple without wildcards (`Distinct`).
-/

namespace Microps.Tcp

variable {n : Nat} {route : BitVec 32 → Option (BitVec 16)}

/-- An endpoint with a wildcard: address ANY or port 0. -/
def Wild (ep : IpEndpoint) : Prop := ep.addr = ipAddrAny ∨ ep.port = 0

/-- No two PCBs in use share a local and a foreign endpoint without wildcards. -/
def Distinct (pcbs : Slot → TcpPcb) : Prop :=
  ∀ i j, i ≠ j → (pcbs i).state ≠ .free → (pcbs j).state ≠ .free →
    ¬Wild (pcbs i).local → ¬Wild (pcbs i).foreign →
    ¬((pcbs i).local = (pcbs j).local ∧ (pcbs i).foreign = (pcbs j).foreign)

/-! ### Selection -/

/-- The local endpoint of `p` matches `l` as `tcp_pcb_select` compares them. -/
def LocalMatch (p : TcpPcb) (l : IpEndpoint) : Prop :=
  (p.local.addr = ipAddrAny ∨ p.local.addr = l.addr) ∧ p.local.port = l.port

/-- `p` holds the tuple `(l, f)`, as `tcp_pcb_select` compares endpoints. -/
def ExactMatch (p : TcpPcb) (l f : IpEndpoint) : Prop := LocalMatch p l ∧ p.foreign = f

/-- `p` is a LISTEN PCB on `l` with the wildcard foreign endpoint `(ANY, 0)`. -/
def WildListener (p : TcpPcb) (l : IpEndpoint) : Prop :=
  LocalMatch p l ∧ p.state = .listen ∧ p.foreign = ⟨ipAddrAny, 0⟩

/-- The selection rule of the spec, but for the state FREE: an exact match;
else a wildcard listener, when no PCB matches exactly; else nothing, when no
PCB of either kind exists. -/
def Selected (pcbs : Slot → TcpPcb) (l f : IpEndpoint) : Option Slot → Prop
  | some i => ExactMatch (pcbs i) l f ∨ (WildListener (pcbs i) l ∧ ∀ j, ¬ExactMatch (pcbs j) l f)
  | none => ∀ j, ¬ExactMatch (pcbs j) l f ∧ ¬WildListener (pcbs j) l

instance (p : TcpPcb) (l : IpEndpoint) : Decidable (LocalMatch p l) :=
  inferInstanceAs (Decidable (_ ∧ _))

instance (p : TcpPcb) (l f : IpEndpoint) : Decidable (ExactMatch p l f) :=
  inferInstanceAs (Decidable (_ ∧ _))

instance (p : TcpPcb) (l : IpEndpoint) : Decidable (WildListener p l) :=
  inferInstanceAs (Decidable (_ ∧ _))

instance (pcbs : Slot → TcpPcb) (l f : IpEndpoint) : (r : Option Slot) → Decidable (Selected pcbs l f r)
  | some _ => inferInstanceAs (Decidable (_ ∨ _))
  | none => inferInstanceAs (Decidable (∀ _, _))

theorem IpEndpoint.eq_iff {e f : IpEndpoint} : e = f ↔ e.addr = f.addr ∧ e.port = f.port := by
  cases e; cases f; simp

/-- One iteration of the loop of `tcp_pcb_select`: return an exact match, else
remember a wildcard listener and go on. -/
theorem tcpPcbSelectFrom_cons (pcbs : Slot → TcpPcb) (l f : IpEndpoint) (i : Slot) (is : List Slot)
    (acc : Option Slot) :
    tcpPcbSelectFrom pcbs l (some f) (i :: is) acc =
      if ExactMatch (pcbs i) l f then some i
      else tcpPcbSelectFrom pcbs l (some f) is (if WildListener (pcbs i) l then some i else acc) := by
  rw [tcpPcbSelectFrom]
  by_cases hl : LocalMatch (pcbs i) l
  · simp only [LocalMatch] at hl
    simp only [ExactMatch, WildListener, LocalMatch, hl, true_and, if_true, IpEndpoint.eq_iff]
    split_ifs <;> rfl
  · simp only [LocalMatch] at hl
    simp [ExactMatch, WildListener, LocalMatch, hl]

theorem tcpPcbSelectFrom_some {pcbs : Slot → TcpPcb} {l f : IpEndpoint} {i : Slot} :
    ∀ {is : List Slot} {acc : Option Slot}, tcpPcbSelectFrom pcbs l (some f) is acc = some i →
      (i ∈ is ∧ ExactMatch (pcbs i) l f) ∨
        ((∀ j ∈ is, ¬ExactMatch (pcbs j) l f) ∧ ((i ∈ is ∧ WildListener (pcbs i) l) ∨ acc = some i))
  | [], _, h => .inr ⟨by simp, .inr h⟩
  | k :: is, acc, h => by
    rw [tcpPcbSelectFrom_cons] at h
    by_cases hx : ExactMatch (pcbs k) l f
    · rw [if_pos hx, Option.some.injEq] at h
      exact .inl ⟨h ▸ List.mem_cons_self k is, h ▸ hx⟩
    rw [if_neg hx] at h
    rcases tcpPcbSelectFrom_some h with ⟨hm, hi⟩ | ⟨hall, ⟨hm, hw⟩ | hacc⟩
    · exact .inl ⟨List.mem_cons_of_mem k hm, hi⟩
    · exact .inr ⟨List.forall_mem_cons.mpr ⟨hx, hall⟩, .inl ⟨List.mem_cons_of_mem k hm, hw⟩⟩
    · refine .inr ⟨List.forall_mem_cons.mpr ⟨hx, hall⟩, ?_⟩
      split_ifs at hacc with hw
      · rw [Option.some.injEq] at hacc
        exact .inl ⟨hacc ▸ List.mem_cons_self k is, hacc ▸ hw⟩
      · exact .inr hacc

theorem tcpPcbSelectFrom_none {pcbs : Slot → TcpPcb} {l f : IpEndpoint} :
    ∀ {is : List Slot} {acc : Option Slot}, tcpPcbSelectFrom pcbs l (some f) is acc = none →
      acc = none ∧ ∀ j ∈ is, ¬ExactMatch (pcbs j) l f ∧ ¬WildListener (pcbs j) l
  | [], _, h => ⟨h, by simp⟩
  | k :: is, acc, h => by
    rw [tcpPcbSelectFrom_cons] at h
    split_ifs at h with hx hw
    · exact absurd (tcpPcbSelectFrom_none h).1 (Option.some_ne_none k)
    · obtain ⟨hacc, hall⟩ := tcpPcbSelectFrom_none h
      exact ⟨hacc, List.forall_mem_cons.mpr ⟨⟨hx, hw⟩, hall⟩⟩

/-- If a PCB matches a segment exactly, `tcp_pcb_select` returns an exact match. -/
theorem tcpPcbSelect_exact {pcbs : Slot → TcpPcb} {l f : IpEndpoint} {k : Slot}
    (hk : LocalMatch (pcbs k) l) (hf : (pcbs k).foreign = f) :
    ∃ i, tcpPcbSelect pcbs l (some f) = some i ∧ LocalMatch (pcbs i) l ∧ (pcbs i).foreign = f := by
  cases h : tcpPcbSelect pcbs l (some f) with
  | none => exact absurd ⟨hk, hf⟩ ((tcpPcbSelectFrom_none h).2 k (List.mem_finRange k)).1
  | some i =>
    rcases tcpPcbSelectFrom_some h with ⟨-, hx⟩ | ⟨hall, -⟩
    · exact ⟨i, rfl, hx⟩
    · exact absurd ⟨hk, hf⟩ (hall k (List.mem_finRange k))

/-- A segment for `l` goes to the one PCB whose local endpoint matches `l`, if
that PCB holds `(l, f)` or is a wildcard listener. -/
theorem tcpPcbSelect_only {pcbs : Slot → TcpPcb} {l f : IpEndpoint} {i : Slot}
    (hi : ExactMatch (pcbs i) l f ∨ WildListener (pcbs i) l) (hj : ∀ j, j ≠ i → ¬LocalMatch (pcbs j) l) :
    tcpPcbSelect pcbs l (some f) = some i := by
  cases h : tcpPcbSelect pcbs l (some f) with
  | none =>
    have hn := (tcpPcbSelectFrom_none h).2 i (List.mem_finRange i)
    exact absurd hi (not_or.2 hn)
  | some k =>
    have hk : LocalMatch (pcbs k) l := by
      rcases tcpPcbSelectFrom_some h with ⟨-, hx⟩ | ⟨-, ⟨-, hw⟩ | hacc⟩
      · exact hx.1
      · exact hw.1
      · cases hacc
    by_contra hne
    exact hj k (fun hki => hne (by rw [hki])) hk

/-- **The selection rule.**  For every table and every pair of endpoints,
`tcp_pcb_select` returns an exact match, or a wildcard listener only when no PCB
matches exactly, or nothing only when no PCB of either kind exists. -/
theorem tcpPcbSelect_selected (pcbs : Slot → TcpPcb) (l f : IpEndpoint) :
    Selected pcbs l f (tcpPcbSelect pcbs l (some f)) := by
  cases h : tcpPcbSelect pcbs l (some f) with
  | none => exact fun j => (tcpPcbSelectFrom_none h).2 j (List.mem_finRange j)
  | some i =>
    rcases tcpPcbSelectFrom_some h with ⟨-, hx⟩ | ⟨hall, ⟨-, hw⟩ | hacc⟩
    · exact .inl hx
    · exact .inr ⟨hw, fun j => hall j (List.mem_finRange j)⟩
    · cases hacc

/-- **Selection returns a FREE slot.**  The loop of `tcp_pcb_select` does not
look at the state but for LISTEN, and a zeroed slot holds the endpoints
`(0.0.0.0, 0)`: in the initial table, a segment from `0.0.0.0:0` to port 0 of
any address selects FREE slot 0.  `tcp_segment_arrives` then finds a state it
has no case for and drops the segment without the reset it sends when no PCB
is selected. -/
theorem select_free_slot (addr : BitVec 32) (seg : TcpSegmentInfo) (flags : BitVec 8)
    (data : List (BitVec 8)) (len : Nat) (rnd : BitVec 32) (ok : Bool) :
    tcpPcbSelect (Sys.init n).pcbs ⟨addr, 0⟩ (some ⟨0, 0⟩) = some 0 ∧
      ((Sys.init n).pcbs 0).state = .free ∧
      arrive (Sys.init n) ⟨seg, flags, data, len, ⟨addr, 0⟩, ⟨0, 0⟩⟩ rnd ok = Sys.init n := by
  have hsel : tcpPcbSelect (Sys.init n).pcbs ⟨addr, 0⟩ (some ⟨0, 0⟩) = some 0 := by
    rw [tcpPcbSelect, show List.finRange tcpPcbSize = 0 :: (List.finRange 15).map Fin.succ from
      List.finRange_succ_eq_map 15, tcpPcbSelectFrom_cons, if_pos]
    exact ⟨⟨.inl rfl, rfl⟩, rfl⟩
  refine ⟨hsel, rfl, ?_⟩
  simp only [arrive, arrivesSlot, hsel]
  exact congrArg (fun p => (⟨p, _, _⟩ : Sys n)) (Function.update_eq_self 0 _)

/-! ### What arrivals do to the endpoints -/

theorem arrivesSynchronized_endpoints (pcb : TcpPcb) (a : TcpArrival) :
    (arrivesSynchronized pcb a).pcb.local = pcb.local ∧
      (arrivesSynchronized pcb a).pcb.foreign = pcb.foreign ∧
      ((arrivesSynchronized pcb a).pcb.state = pcb.state ∨
        (arrivesSynchronized pcb a).pcb.state = .established) := by
  rcases arrivesSynchronized_cases pcb a with h | ⟨-, ⟨-, h⟩ | ⟨snd, -, h⟩⟩ <;> rw [h] <;> simp

/-- An arrival keeps the endpoints of a PCB, or a LISTEN PCB adopts those of a
SYN and becomes SYN_RECEIVED; it makes no PCB FREE or LISTEN that was not. -/
theorem arrives_endpoints (pcb : TcpPcb) (a : TcpArrival) (rnd : BitVec 32) :
    ((tcpSegmentArrivesPcb pcb a rnd).pcb.state = .free ↔ pcb.state = .free) ∧
    ((tcpSegmentArrivesPcb pcb a rnd).pcb.state = .listen → pcb.state = .listen) ∧
    (((tcpSegmentArrivesPcb pcb a rnd).pcb.local = pcb.local ∧
        (tcpSegmentArrivesPcb pcb a rnd).pcb.foreign = pcb.foreign) ∨
      (pcb.state = .listen ∧ (tcpSegmentArrivesPcb pcb a rnd).pcb.state = .synReceived ∧
        (tcpSegmentArrivesPcb pcb a rnd).pcb.local = a.local ∧
        (tcpSegmentArrivesPcb pcb a rnd).pcb.foreign = a.foreign)) := by
  rcases tcpSegmentArrivesPcb_cases pcb a rnd with ⟨hl, h⟩ | ⟨hsync, h⟩ | h <;> rw [h]
  · unfold arrivesListen
    split_ifs <;> simp [hl]
  · obtain ⟨hloc, hfor, hst⟩ := arrivesSynchronized_endpoints pcb a
    refine ⟨?_, ?_, .inl ⟨hloc, hfor⟩⟩ <;> rcases hst with h | h <;> rcases hsync with h' | h' <;>
      simp [h, h']
  · simp

theorem arrivesSlot_select {pcbs : Slot → TcpPcb} {a : TcpArrival} {i : Slot}
    (h : arrivesSlot pcbs a = some i) : tcpPcbSelect pcbs a.local (some a.foreign) = some i := by
  unfold arrivesSlot at h
  split at h
  · split at h
    · cases h
    · cases h; assumption
  · cases h

/-! ### The invariant -/

/-- The event is no passive open with a foreign endpoint. -/
def openNoForeign : Event n → Bool
  | .call _ (.openRfc793 _ f _) _ => f.isNone
  | _ => true

/-- Runs in which no open names a foreign endpoint. -/
def NoForeign (_ : Sys n) (e : Event n) : Prop := openNoForeign e = true

instance (s : Sys n) (e : Event n) : Decidable (NoForeign s e) := inferInstanceAs (Decidable (_ = true))

/-- FREE and LISTEN PCBs have the wildcard foreign endpoint `(ANY, 0)`, and the
PCBs in use hold distinct tuples. -/
structure TableOk (pcbs : Slot → TcpPcb) : Prop where
  free : ∀ i, (pcbs i).state = .free → (pcbs i).foreign = ⟨0, 0⟩
  listen : ∀ i, (pcbs i).state = .listen → (pcbs i).foreign = ⟨0, 0⟩
  distinct : Distinct pcbs

section Step

variable {s : Sys n} {e : Event n} (hnf : NoForeign s e) (hok : TableOk s.pcbs)
include hnf hok

/-- Where the endpoints a step leaves in a slot come from: the slot is FREE or
has the wildcard foreign endpoint, or keeps its endpoints, or is a LISTEN PCB
that adopted those of the segment the step brought. -/
theorem origin_pcbStep {k : Slot} {p : TcpPcb} (h : PcbStep s k e p) :
    (p.state = .free → p.foreign = ⟨0, 0⟩) ∧ (p.state = .listen → p.foreign = ⟨0, 0⟩) ∧
    (p.foreign = ⟨0, 0⟩ ∨ (p.local = (s.pcbs k).local ∧ p.foreign = (s.pcbs k).foreign) ∨
      ∃ data src dst rnd ok a, e = .input data src dst rnd ok ∧ tcpInput data src dst = some a ∧
        arrivesSlot s.pcbs a = some k ∧ (s.pcbs k).state = .listen ∧ p.local = a.local ∧
        p.foreign = a.foreign) := by
  cases h with
  | keep => exact ⟨hok.free k, hok.listen k, .inr (.inl ⟨rfl, rfl⟩)⟩
  | @arrive data src dst rnd ok a ha hi =>
    obtain ⟨hfree, hlisten, hend⟩ := arrives_endpoints (s.pcbs k) a rnd
    rcases hend with ⟨hl, hf⟩ | ⟨hl0, hsyn, hl, hf⟩
    · exact ⟨fun h => hf ▸ hok.free k (hfree.mp h), fun h => hf ▸ hok.listen k (hlisten h),
        .inr (.inl ⟨hl, hf⟩)⟩
    · exact ⟨fun h => by simp [hsyn] at h, fun h => by simp [hsyn] at h,
        .inr (.inr ⟨data, src, dst, rnd, ok, a, rfl, ha, hi, hl0, hl, hf⟩)⟩
  | listen ha =>
    simp only [NoForeign, openNoForeign, Option.isNone_iff_eq_none] at hnf
    have hf := hok.free k (tcpPcbAlloc_some ha)
    exact ⟨fun h => by simp at h, fun _ => by simp [hnf, hf], .inl (by simp [hnf, hf])⟩
  | close => exact ⟨fun h => by simp at h, fun h => by simp at h, .inr (.inl ⟨rfl, rfl⟩)⟩
  | free => exact ⟨fun _ => rfl, fun _ => rfl, .inl rfl⟩
  | take hs => exact ⟨hok.free k, hok.listen k, .inr (.inl ⟨rfl, rfl⟩)⟩
  | advance _ => exact ⟨hok.free k, hok.listen k, .inr (.inl ⟨rfl, rfl⟩)⟩

end Step

/-- A LISTEN PCB adopts the tuple of a segment only when no PCB holds it
exactly, or when its foreign endpoint is the wildcard. -/
theorem adopted_wild {pcbs : Slot → TcpPcb} (hok : TableOk pcbs) {a : TcpArrival} {k j : Slot}
    (hsel : arrivesSlot pcbs a = some k) (hlisten : (pcbs k).state = .listen)
    (hjl : (pcbs j).local = a.local) (hjf : (pcbs j).foreign = a.foreign) : a.foreign = ⟨0, 0⟩ := by
  obtain ⟨i, hi, -, hf⟩ := tcpPcbSelect_exact
    (show LocalMatch (pcbs j) a.local from ⟨.inr (by rw [hjl]), by rw [hjl]⟩) hjf
  rw [arrivesSlot_select hsel, Option.some.injEq] at hi
  rw [← hf, ← hi, hok.listen k hlisten]

/-- Every step admitted keeps `TableOk`. -/
theorem tableOk_step {s s' : Sys n} {e : Event n} (h : step route s e = some s') (hnf : NoForeign s e)
    (hok : TableOk s.pcbs) : TableOk s'.pcbs := by
  have ho := fun k => origin_pcbStep hnf hok (pcbStep_of_step h k)
  refine ⟨fun k => (ho k).1, fun k => (ho k).2.1, ?_⟩
  intro i j hij _ _ hwl hwf ⟨hl, hf⟩
  have hi0 : (s'.pcbs i).foreign ≠ ⟨0, 0⟩ := fun h0 => hwf (by rw [h0]; exact .inl rfl)
  have hj0 : (s'.pcbs j).foreign ≠ ⟨0, 0⟩ := hf ▸ hi0
  rcases (ho i).2.2 with h0 | ⟨hli, hfi⟩ | ⟨data, src, dst, rnd, ok, a, rfl, ha, hsi, hlsi, hli, hfi⟩
  · exact hi0 h0
  · rcases (ho j).2.2 with h0 | ⟨hlj, hfj⟩ | ⟨data, src, dst, rnd, ok, a, rfl, ha, hsj, hlsj, hlj, hfj⟩
    · exact hj0 h0
    · exact hok.distinct i j hij (fun h => hi0 (hfi ▸ hok.free i h)) (fun h => hj0 (hfj ▸ hok.free j h))
        (hli ▸ hwl) (hfi ▸ hwf) ⟨hli ▸ hlj ▸ hl, hfi ▸ hfj ▸ hf⟩
    · exact hj0 (hfj ▸ adopted_wild hok hsj hlsj (hli ▸ hlj ▸ hl) (hfi ▸ hfj ▸ hf))
  · rcases (ho j).2.2 with h0 | ⟨hlj, hfj⟩ | ⟨data', src', dst', rnd', ok', a', he, ha', hsj, -, -, -⟩
    · exact hj0 h0
    · exact hi0 (hfi ▸ adopted_wild hok hsi hlsi (hlj ▸ hli ▸ hl.symm) (hfj ▸ hfi ▸ hf.symm))
    · cases he
      rw [ha, Option.some.injEq] at ha'
      subst ha'
      exact hij (Option.some.inj (hsi.symm.trans hsj))

theorem tableOk_init : TableOk (Sys.init n).pcbs :=
  ⟨fun _ _ => rfl, fun _ h => by simp [Sys.init] at h, fun _ _ _ h => by simp [Sys.init] at h⟩

/-- **One PCB per connection.**  In every state reached with defined
behaviour by runs in which no passive open names a foreign endpoint, no two
PCBs in use hold the same local and foreign endpoints without wildcards, and
every LISTEN PCB has the wildcard foreign endpoint `(ANY, 0)`. -/
theorem unique_connections {s : Sys n} (h : Reachable route (fun s e => NoForeign s e ∧ Defined s e) s) :
    Distinct s.pcbs ∧ ∀ i, (s.pcbs i).state = .listen → (s.pcbs i).foreign = ⟨0, 0⟩ := by
  suffices hT : TableOk s.pcbs from ⟨hT.distinct, hT.listen⟩
  induction h with
  | init => exact tableOk_init
  | step _ hnf hstep ih => exact tableOk_step hstep hnf.1 ih

theorem unique_connections_handshake :
    ∃ s, runIf (fun _ => some 1500) (fun s e => NoForeign s e ∧ Defined s e) (Sys.init 1)
        (handshake 0 ⟨0x0a000002, 80⟩ ⟨0x0a000005, 40000⟩ 1000 500 4096) = some s ∧
      Distinct s.pcbs ∧ ∀ i, (s.pcbs i).state = .listen → (s.pcbs i).foreign = ⟨0, 0⟩ := by
  obtain ⟨s, hs, -⟩ := exists_of_decide (P := fun _ : Sys 1 => True)
    (o := runIf (fun _ => some 1500) (fun s e => NoForeign s e ∧ Defined s e) (Sys.init 1)
      (handshake 0 ⟨0x0a000002, 80⟩ ⟨0x0a000005, 40000⟩ 1000 500 4096)) (by decide)
  exact ⟨s, hs, unique_connections (Reachable.init.runIf _ hs)⟩

/-- **Two opens, one tuple.**  Two passive opens with the same local and foreign
endpoints, neither with a wildcard, leave two LISTEN PCBs holding the tuple. -/
theorem duplicate_listeners :
    ∃ s, run (fun _ => some 1500) (Sys.init 2)
        [.call 0 (.openRfc793 ⟨0x0a000002, 80⟩ (some ⟨0x0a000005, 40000⟩) false) true,
         .call 1 (.openRfc793 ⟨0x0a000002, 80⟩ (some ⟨0x0a000005, 40000⟩) false) true] = some s ∧
      (s.pcbs 0).state = .listen ∧ (s.pcbs 1).state = .listen ∧
      (s.pcbs 0).local = ⟨0x0a000002, 80⟩ ∧ (s.pcbs 1).local = ⟨0x0a000002, 80⟩ ∧
      (s.pcbs 0).foreign = ⟨0x0a000005, 40000⟩ ∧ (s.pcbs 1).foreign = ⟨0x0a000005, 40000⟩ :=
  exists_of_decide (by decide)

end Microps.Tcp
