import Microps.Ip.Addr

/-!
# The strings `ip_addr_pton` accepts

`ip_addr_pton` reads each octet with `strtol`, which skips blanks and takes a
sign and any number of leading zeros, so it accepts more than the canonical
dotted quads `ip_addr_ntop` prints, and it stores each octet before it reads
the next.

* `ptonLoop_succ`: one iteration of the loop fails and leaves `*n` as it was
  where the string has no field (`OctetText`) followed by the right separator
  (`FieldAt`), and otherwise stores the field's value.  Neither outcome depends
  on what `*n` holds.
* `ipAddrPton_eq_iff`: on a C string, `ip_addr_pton` stores `n` and returns 0
  exactly when the string is a dotted quad of `n` with fields as `strtol` reads
  them.  A canonical numeral is `%d` of its value (`eq_decimal_of_digitsOf`), so
  `ip_addr_ntop` gives a canonical dotted quad back; on `" +10.0.0.02"`, which
  `ip_addr_pton` also accepts, it gives `"10.0.0.2"`.
* `ipAddrPton_fails`: a failure leaves in `*n` the values of the fields parsed
  before the failing one (`FailsAfter`), and the other bytes as they were; a
  failure at the first field leaves `*n` as it was.
-/

namespace Microps.Ip

/-! ## One octet -/

theorem readSign_spec (r : List Char) :
    ∃ sg, r = sg ++ (readSign r).2 ∧
      ((sg = [] ∨ sg = ['+']) ∧ (readSign r).1 = false ∨ sg = ['-'] ∧ (readSign r).1 = true) := by
  unfold readSign
  split
  · exact ⟨['-'], rfl, .inr ⟨rfl, rfl⟩⟩
  · exact ⟨['+'], rfl, .inl ⟨.inr rfl, rfl⟩⟩
  · exact ⟨[], rfl, .inl ⟨.inl rfl, rfl⟩⟩

theorem deref_dropWhile_isDigit (u : List Char) : (deref (u.dropWhile Char.isDigit)).isDigit = false := by
  cases h : u.dropWhile Char.isDigit with
  | nil => rfl
  | cons c cs =>
    have := List.head_dropWhile_not Char.isDigit u (by simp [h])
    simpa [h] using this

/-- **What `strtol` read**, when `ip_addr_pton` goes on: a field of a byte,
followed by a character that is not a digit. -/
theorem octetText_of_strtol {sp ep : List Char} {ret : Int} (h : strtol sp = (ret, ep))
    (h0 : 0 ≤ ret) (h255 : ret ≤ 255) (hne : ep.length ≠ sp.length) :
    ∃ f, sp = f ++ ep ∧ OctetText f (BitVec.ofInt 8 ret) ∧ (deref ep).isDigit = false := by
  obtain ⟨sg, hsg, hsign⟩ := readSign_spec (sp.dropWhile isSpace)
  rcases hrs : readSign (sp.dropWhile isSpace) with ⟨neg, u⟩
  rw [hrs] at hsg hsign
  simp only [strtol, hrs] at h
  by_cases hds : u.takeWhile Char.isDigit = []
  · rw [if_pos hds, Prod.mk.injEq] at h
    exact absurd (congrArg List.length h.2).symm hne
  rw [if_neg hds, Prod.mk.injEq] at h
  obtain ⟨hret, rfl⟩ := h
  have hv : ((BitVec.ofInt 8 ret).toNat : Int) = ret := by
    rw [BitVec.toNat_ofInt, Int.toNat_of_nonneg (Int.emod_nonneg _ (by decide))]
    exact Int.emod_eq_of_lt h0 (by omega)
  have hval : (decimalValue (u.takeWhile Char.isDigit) : Int) = ret := by
    cases neg <;> simp only [longMin, longMax, if_true, Bool.false_eq_true, if_false] at hret <;> omega
  have hneg : neg = true → ret = 0 := by
    rintro rfl
    simp only [longMin, longMax, if_true] at hret
    omega
  have hdv : decimalValue (u.takeWhile Char.isDigit) = (BitVec.ofInt 8 ret).toNat := by
    exact_mod_cast hval.trans hv.symm
  refine ⟨sp.takeWhile isSpace ++ sg ++ u.takeWhile Char.isDigit, ?_,
    ⟨_, sg, _, rfl, fun c hc => List.mem_takeWhile_imp hc, ?_,
      hds, fun c hc => List.mem_takeWhile_imp hc, hdv⟩, deref_dropWhile_isDigit u⟩
  · conv_lhs => rw [← List.takeWhile_append_dropWhile isSpace sp, hsg,
      ← List.takeWhile_append_dropWhile Char.isDigit u]
    simp only [List.append_assoc]
  · rcases hsign with ⟨hsg | hsg, -⟩ | ⟨hsg, hneg'⟩
    · exact .inl hsg
    · exact .inr (.inl hsg)
    · exact .inr (.inr ⟨hsg, by rw [hneg hneg']; rfl⟩)

/-- The field at octet `idx` of `sp`: a field as `strtol` reads it, of the
value `v`, and then `rest`, which starts with the separator `ip_addr_pton`
wants after octet `idx`. -/
def FieldAt (idx : Nat) (sp f : List Char) (v : BitVec 8) (rest : List Char) : Prop :=
  sp = f ++ rest ∧ OctetText f v ∧ deref rest = if idx = 3 then nul else '.'

/-- **One iteration of the loop of `ip_addr_pton`**: where `sp` has no field
at octet `idx` it fails and leaves `*n` as it was; where it has one, it stores
the field's value and goes on past the separator. -/
theorem ptonLoop_succ (k idx : Nat) (sp : List Char) :
    ((¬∃ f v rest, FieldAt idx sp f v rest) ∧ ∀ n, ptonLoop (k + 1) idx sp n = (-1, n)) ∨
      ∃ f v rest, FieldAt idx sp f v rest ∧
        ∀ n, ptonLoop (k + 1) idx sp n = ptonLoop k (idx + 1) (rest.drop 1) (setOctet n idx v) := by
  by_cases hx : ∃ f v rest, FieldAt idx sp f v rest
  · obtain ⟨f, v, rest, hsp, hf, hsep⟩ := hx
    subst hsp
    exact .inr ⟨f, v, rest, ⟨rfl, hf, hsep⟩, fun n => ptonLoop_octetText k idx hf n hsep⟩
  refine .inl ⟨hx, fun n => ?_⟩
  rcases hs : strtol sp with ⟨ret, ep⟩
  simp only [ptonLoop, hs]
  split_ifs with h₁ h₂ h₃
  · rfl
  · rfl
  · rfl
  simp only [not_or, not_lt, not_and, not_not] at h₁ h₃
  obtain ⟨f, rfl, hf, -⟩ := octetText_of_strtol hs h₁.1 h₁.2 h₂
  refine absurd ⟨f, _, ep, rfl, hf, ?_⟩ hx
  split_ifs with h
  · exact h₃.1 h
  · exact h₃.2 h

/-! ## Success -/

theorem ptonLoop_ok {k idx : Nat} {sp : List Char} {n m : BitVec 32}
    (h : ptonLoop (k + 1) idx sp n = (0, m)) :
    ∃ f v rest, sp = f ++ rest ∧ OctetText f v ∧ deref rest = (if idx = 3 then nul else '.') ∧
      ptonLoop k (idx + 1) (rest.drop 1) (setOctet n idx v) = (0, m) := by
  rcases ptonLoop_succ k idx sp with ⟨-, hf⟩ | ⟨f, v, rest, ⟨hsp, hf, hr⟩, hs⟩
  · rw [hf, Prod.mk.injEq] at h
    exact absurd h.1 (by decide)
  · exact ⟨f, v, rest, hsp, hf, hr, (hs n).symm.trans h⟩

theorem exists_cons_of_deref {r : List Char} {c : Char} (h : deref r = c) (hc : c ≠ nul) :
    ∃ t, r = c :: t := by
  cases r with
  | nil => exact absurd h.symm hc
  | cons x xs => exact ⟨xs, by rw [← h]; rfl⟩

theorem eq_nil_of_deref {r : List Char} (h : deref r = nul) (hr : nul ∉ r) : r = [] := by
  cases r with
  | nil => rfl
  | cons x xs => exact absurd (h ▸ List.mem_cons_self x xs) hr

/-- **What `ip_addr_pton` accepts**: a C string on which it returns 0 is a
dotted quad of the address it stores, with fields as `strtol` reads them. -/
theorem quad_of_ipAddrPton {s : List Char} (hs : nul ∉ s) {n₀ n : BitVec 32}
    (h : ipAddrPton s n₀ = (0, n)) : Quad OctetText s n := by
  obtain ⟨f₀, v₀, r₀, rfl, h₀, d₀, h⟩ := ptonLoop_ok h
  obtain ⟨t₀, rfl⟩ := exists_cons_of_deref d₀ (by decide)
  obtain ⟨f₁, v₁, r₁, rfl, h₁, d₁, h⟩ := ptonLoop_ok h
  obtain ⟨t₁, rfl⟩ := exists_cons_of_deref d₁ (by decide)
  obtain ⟨f₂, v₂, r₂, rfl, h₂, d₂, h⟩ := ptonLoop_ok h
  obtain ⟨t₂, rfl⟩ := exists_cons_of_deref d₂ (by decide)
  obtain ⟨f₃, v₃, r₃, rfl, h₃, d₃, h⟩ := ptonLoop_ok h
  obtain rfl := eq_nil_of_deref d₃ fun hr => hs (by simp [hr])
  have hn : be32 n = [v₀, v₁, v₂, v₃] := by
    simp only [ptonLoop, Prod.mk.injEq, true_and] at h
    rw [← h, be32_setOctet_four]
  have ho (i : Nat) : octet n i = [v₀, v₁, v₂, v₃].getD i 0 := by rw [octet, hn]
  exact ⟨f₀, f₁, f₂, f₃, by simp, by rw [ho]; exact h₀, by rw [ho]; exact h₁, by rw [ho]; exact h₂,
    by rw [ho]; exact h₃⟩

/-! ## Canonical dotted quads -/

/-- A canonical numeral of `v`: its digits, with no leading zero. -/
def Canonical (f : List Char) (v : BitVec 8) : Prop :=
  DigitsOf f v.toNat ∧ (f.head? = some '0' → f = ['0'])

theorem Quad.mono {F G : List Char → BitVec 8 → Prop} (hFG : ∀ f v, F f v → G f v) {s : List Char}
    {n : BitVec 32} (h : Quad F s n) : Quad G s n := by
  obtain ⟨f₀, f₁, f₂, f₃, hs, h₀, h₁, h₂, h₃⟩ := h
  exact ⟨f₀, f₁, f₂, f₃, hs, hFG _ _ h₀, hFG _ _ h₁, hFG _ _ h₂, hFG _ _ h₃⟩

theorem octetText_of_canonical {f : List Char} {v : BitVec 8} (h : Canonical f v) : OctetText f v :=
  ⟨[], [], f, rfl, by simp, .inl rfl, h.1⟩

theorem digitChar_of_isDigit {c : Char} (h : c.isDigit = true) : Nat.digitChar (c.toNat - 48) = c := by
  have hc := toNat_of_isDigit h
  have key : ∀ k < 10, Nat.digitChar k = Char.ofNat (48 + k) := by decide
  rw [key _ (by omega), show 48 + (c.toNat - 48) = c.toNat by omega, Char.ofNat_toNat]

theorem le_foldl_decimal (cs : List Char) (a : Nat) :
    a ≤ cs.foldl (fun a c => 10 * a + (c.toNat - 48)) a := by
  induction cs generalizing a with
  | nil => exact le_rfl
  | cons c cs ih => exact le_trans (show a ≤ 10 * a + (c.toNat - 48) by omega) (ih _)

theorem decimalValue_append (g : List Char) (d : Char) :
    decimalValue (g ++ [d]) = 10 * decimalValue g + (d.toNat - 48) := by
  simp [decimalValue, List.foldl_append]

/-- **A numeral without a leading zero is `%d` of its value.** -/
theorem eq_decimal_of_digitsOf {f : List Char} {v : Nat} (h : DigitsOf f v)
    (hz : f.head? = some '0' → f = ['0']) : f = decimal v := by
  induction f using List.reverseRecOn generalizing v with
  | nil => exact absurd rfl h.1
  | append_singleton g d ih =>
    obtain ⟨-, hd, rfl⟩ := h
    have hdd := hd d (by simp)
    have hlt := toNat_of_isDigit hdd
    rw [decimalValue_append, decimal_eq]
    by_cases hg : g = []
    · subst hg
      rw [if_pos (by simp [decimalValue]; omega)]
      simp [decimalValue, Nat.mod_eq_of_lt (show d.toNat - 48 < 10 by omega), digitChar_of_isDigit hdd]
    obtain ⟨c, cs, rfl⟩ := List.exists_cons_of_ne_nil hg
    have hc := toNat_of_isDigit (hd c (by simp))
    have hc0 : c ≠ '0' := by
      rintro rfl
      simpa using hz rfl
    have hw : 1 ≤ decimalValue (c :: cs) := by
      have h48 : c.toNat ≠ 48 := fun h => hc0 (by rw [← Char.ofNat_toNat c, h])
      have := le_foldl_decimal cs (10 * 0 + (c.toNat - 48))
      simp only [decimalValue, List.foldl_cons] at this ⊢
      omega
    have hg' := ih ⟨hg, fun x hx => hd x (List.mem_append_left _ hx), rfl⟩ fun h0 => absurd (by simpa using h0) hc0
    rw [if_neg (by omega), show (10 * decimalValue (c :: cs) + (d.toNat - 48)) / 10 = decimalValue (c :: cs) by
      omega, show (10 * decimalValue (c :: cs) + (d.toNat - 48)) % 10 = d.toNat - 48 by omega, ← hg',
      digitChar_of_isDigit hdd]

/-- A canonical dotted quad of `n` is what `ip_addr_ntop` prints for `n`. -/
theorem dottedQuad_of_canonical {s : List Char} {n : BitVec 32} (h : Quad Canonical s n) :
    s = dottedQuad n := by
  obtain ⟨f₀, f₁, f₂, f₃, rfl, h₀, h₁, h₂, h₃⟩ := h
  rw [eq_decimal_of_digitsOf h₀.1 h₀.2, eq_decimal_of_digitsOf h₁.1 h₁.2, eq_decimal_of_digitsOf h₂.1 h₂.2,
    eq_decimal_of_digitsOf h₃.1 h₃.2]
  rfl

/-- **The dotted quads `ip_addr_pton` accepts.**  On a C string `s`,
`ip_addr_pton` returns 0 and stores `n` exactly when `s` is a dotted quad of `n`
with fields as `strtol` reads them; when the dotted quad is canonical,
`ip_addr_ntop` of `n` gives `s` back. -/
theorem ipAddrPton_eq_iff (s : List Char) (hs : nul ∉ s) (n₀ : BitVec 32) (buf : List Char) :
    (∀ n, ipAddrPton s n₀ = (0, n) ↔ Quad OctetText s n) ∧
      ∀ n, Quad Canonical s n → ipAddrPton s n₀ = (0, n) ∧ ipAddrNtop n buf ipAddrStrLen = s :=
  ⟨fun _ => ⟨quad_of_ipAddrPton hs, fun h => ipAddrPton_of_quad h n₀⟩, fun _ h =>
    ⟨ipAddrPton_of_quad (h.mono fun _ _ => octetText_of_canonical) n₀,
      by rw [ipAddrNtop_strLen, dottedQuad_of_canonical h]⟩⟩

theorem ipAddrPton_eq_iff_ten : nul ∉ "10.0.0.2".toList ∧
    ((∀ n, ipAddrPton "10.0.0.2".toList 0 = (0, n) ↔ Quad OctetText "10.0.0.2".toList n) ∧
      ∀ n, Quad Canonical "10.0.0.2".toList n →
        ipAddrPton "10.0.0.2".toList 0 = (0, n) ∧ ipAddrNtop n [] ipAddrStrLen = "10.0.0.2".toList) :=
  ⟨by decide, ipAddrPton_eq_iff _ (by decide) 0 []⟩

/-- `ip_addr_pton` accepts `" +10.0.0.02"`, with a blank, a sign and a leading
zero, and `ip_addr_ntop` prints the address it stores otherwise. -/
theorem ipAddrPton_noncanonical : ipAddrPton " +10.0.0.02".toList 0 = (0, 0x0a000002) ∧
    ipAddrNtop 0x0a000002 [] ipAddrStrLen ≠ " +10.0.0.02".toList := by decide

/-! ## Failure -/

/-- The stores `((uint8_t *)n)[idx + i] = vs[i]`, in order. -/
def setOctets (n : BitVec 32) (idx : Nat) : List (BitVec 8) → BitVec 32
  | [] => n
  | v :: vs => setOctets (setOctet n idx v) (idx + 1) vs

theorem be32_setOctets (vs : List (BitVec 8)) :
    ∀ (n : BitVec 32) (idx : Nat), idx + vs.length ≤ 4 →
      be32 (setOctets n idx vs) = (be32 n).take idx ++ vs ++ (be32 n).drop (idx + vs.length) := by
  induction vs with
  | nil => intro n idx _; simp [setOctets]
  | cons v vs ih =>
    intro n idx h
    have hl : (be32 n).length = 4 := by rw [be32_eq]; rfl
    simp only [List.length_cons] at h
    have htake : ((be32 n).set idx v).take (idx + 1) = (be32 n).take idx ++ [v] := by
      rw [List.take_succ, List.set_take, List.set_eq_of_length_le (by simp [hl]),
        List.getElem?_set_self (by omega)]
      rfl
    rw [setOctets, ih _ _ (by omega), be32_setOctet _ (by omega), htake,
      List.drop_set_of_lt v _ (by omega), List.length_cons, ← Nat.add_assoc, Nat.add_right_comm]
    simp

/-- From octet `idx` on, `sp` holds the fields of the values `vs`, each as
`strtol` reads it and followed by a dot, and then no field at the next octet:
what `ip_addr_pton` has parsed when it fails. -/
def FailsAfter : Nat → List Char → List (BitVec 8) → Prop
  | idx, sp, [] => ¬∃ f v rest, FieldAt idx sp f v rest
  | idx, sp, v :: vs => ∃ f t, sp = f ++ '.' :: t ∧ OctetText f v ∧ FailsAfter (idx + 1) t vs

/-- The loop of `ip_addr_pton` from octet `idx` with `k` octets left: its
result, and the values it stores from octet `idx` on, fixed by the string; a
failure stores fewer than `k`, the values of the fields before the one it
fails at. -/
theorem ptonLoop_stores : ∀ (k idx : Nat) (sp : List Char), idx + k ≤ 4 → ∃ r vs, vs.length ≤ k ∧
    (r = -1 → vs.length < k ∧ FailsAfter idx sp vs) ∧ ∀ n, ptonLoop k idx sp n = (r, setOctets n idx vs)
  | 0, _, _, _ => ⟨0, [], le_rfl, by simp, fun _ => rfl⟩
  | k + 1, idx, sp, hk => by
    rcases ptonLoop_succ k idx sp with ⟨hx, hf⟩ | ⟨f, v, rest, ⟨hsp, hfv, hr⟩, hs⟩
    · exact ⟨-1, [], by simp, fun _ => ⟨by simp, hx⟩, hf⟩
    · obtain ⟨r, vs, hl, hr', hn⟩ := ptonLoop_stores k (idx + 1) (rest.drop 1) (by omega)
      refine ⟨r, v :: vs, by simp [hl], fun h => ?_, fun n => by rw [hs, hn]; rfl⟩
      obtain ⟨hlt, hfa⟩ := hr' h
      rw [if_neg (by omega)] at hr
      obtain ⟨t, rfl⟩ := exists_cons_of_deref hr (by decide)
      exact ⟨by simp; omega, f, t, hsp, hfv, hfa⟩

/-- **A failed parse writes the fields before the failing one.**  When
`ip_addr_pton` returns -1, the string holds the fields of fewer than four
values `vs`, each followed by a dot, and then no field: for every prior value
of `*n` the call returns -1 and leaves `vs` in the first bytes of `*n` and the
other bytes as they were.  A failure at the first field (`vs = []`) leaves
`*n` as it was. -/
theorem ipAddrPton_fails (s : List Char) (n : BitVec 32) (h : (ipAddrPton s n).1 = -1) :
    ∃ vs : List (BitVec 8), vs.length < 4 ∧ FailsAfter 0 s vs ∧ ∀ m, (ipAddrPton s m).1 = -1 ∧
      be32 (ipAddrPton s m).2 = vs ++ (be32 m).drop vs.length ∧ (vs = [] → (ipAddrPton s m).2 = m) := by
  obtain ⟨r, vs, -, hr, hk⟩ := ptonLoop_stores 4 0 s le_rfl
  rw [ipAddrPton, hk] at h
  obtain ⟨hlt, hfa⟩ := hr h
  refine ⟨vs, hlt, hfa, fun m => ?_⟩
  have hb : be32 (ipAddrPton s m).2 = vs ++ (be32 m).drop vs.length := by
    rw [ipAddrPton, hk, be32_setOctets vs m 0 (by omega)]
    simp
  refine ⟨by rw [ipAddrPton, hk]; exact h, hb, ?_⟩
  rintro rfl
  exact be32_injective (by simpa using hb)

theorem ipAddrPton_fails_third : (ipAddrPton "10.0.300.2".toList 7).1 = -1 ∧
    ∃ vs : List (BitVec 8), vs.length < 4 ∧ FailsAfter 0 "10.0.300.2".toList vs ∧
      ∀ m, (ipAddrPton "10.0.300.2".toList m).1 = -1 ∧
        be32 (ipAddrPton "10.0.300.2".toList m).2 = vs ++ (be32 m).drop vs.length ∧
          (vs = [] → (ipAddrPton "10.0.300.2".toList m).2 = m) :=
  ⟨by decide, ipAddrPton_fails _ 7 (by decide)⟩
/-- A failure in the third octet: `ip_addr_pton` returns -1 with `*n` turned
from `0.0.0.7` into `10.0.0.7`. -/
theorem ipAddrPton_overwrites : ipAddrPton "10.0.300.2".toList 7 = (-1, 0x0a000007) := by decide

end Microps.Ip
