import Microps.Wire
import Mathlib.Data.Nat.Digits

/-!
# Dotted-quad addresses

`ip_addr_pton` reads the four octets of a dotted quad with `strtol`, checks
each one and the character after it, and stores it into `*n` before it reads
the next; `ip_addr_ntop` prints the four bytes of an address with
`"%d.%d.%d.%d"`.  As everywhere in the model an address is its network-order
reading: the bytes of an `ip_addr_t` in memory are `be32 n` whatever the host's
byte order, and storing octet `idx` sets byte `idx` of them (`setOctet`).

A C string is the list of its characters before the terminating NUL, and a
pointer into it is the suffix it points at: `ep == sp` compares lengths, and
`*ep` is the head of the suffix, NUL at its end (`deref`).

* `strtol` follows the C library: leading `isspace`, an optional sign, the
  longest run of decimal digits, clamped to a 64-bit `long`; with no digits the
  value is 0 and `ep` is `sp`.  `strtol_octetText` reads a field of a dotted
  quad (`OctetText`) followed by a character that is not a digit.
* `decimal` is `%d`.  `decimal_eq` takes the last digit off, and from it
  `decimal_digitsOf` and `decimal_length_le` give what a parse of an octet's
  text needs.
* `ipAddrPton_of_quad`: on a dotted quad of `n` (`Quad`), `ip_addr_pton`
  stores `n`.
* `ipAddrPton_ipAddrNtop`: **every address reads back from its text**, whatever
  `*n` held before.
-/

namespace Microps.Ip

/-! ## C strings and `strtol` -/

/-- The NUL that ends a C string. -/
def nul : Char := Char.ofNat 0

/-- `*p` for the suffix `p` of a C string. -/
def deref (p : List Char) : Char := p.headD nul

/-- `isspace` in the C locale: the space, and `\t`, `\n`, `\v`, `\f`, `\r`. -/
def isSpace (c : Char) : Bool := c.toNat = 32 || (9 ≤ c.toNat && c.toNat ≤ 13)

/-- The value of a run of decimal digits, most significant first. -/
def decimalValue (ds : List Char) : Nat := ds.foldl (fun a c => 10 * a + (c.toNat - 48)) 0

/-- `LONG_MIN` of a 64-bit `long`. -/
def longMin : Int := -2 ^ 63

/-- `LONG_MAX` of a 64-bit `long`. -/
def longMax : Int := 2 ^ 63 - 1

/-- The optional sign `strtol` reads: whether it is `-`, and the rest. -/
def readSign : List Char → Bool × List Char
  | '-' :: u => (true, u)
  | '+' :: u => (false, u)
  | u => (false, u)

/-- `strtol(sp, &ep, 10)`: the value and the suffix `ep` points at.  A value
out of the range of `long` is clamped to `LONG_MIN` or `LONG_MAX` (and `errno`
set, which `ip_addr_pton` does not read); `ep` is then still past every
digit. -/
def strtol (sp : List Char) : Int × List Char :=
  let (neg, u) := readSign (sp.dropWhile isSpace)
  let ds := u.takeWhile Char.isDigit
  if ds = [] then (0, sp) else
    let v : Int := if neg then -(decimalValue ds : Int) else decimalValue ds
    (max longMin (min longMax v), u.dropWhile Char.isDigit)

theorem toNat_of_isDigit {c : Char} (h : c.isDigit = true) : 48 ≤ c.toNat ∧ c.toNat ≤ 57 := by
  simp only [Char.isDigit, Bool.and_eq_true, decide_eq_true_eq] at h
  exact ⟨h.1, h.2⟩

theorem isSpace_of_isDigit {c : Char} (h : c.isDigit = true) : isSpace c = false := by
  have := toNat_of_isDigit h
  simp only [isSpace, Bool.or_eq_false_iff, decide_eq_false_iff_not, Bool.and_eq_false_iff]
  omega

theorem readSign_of_isDigit {c : Char} (h : c.isDigit = true) (l : List Char) :
    readSign (c :: l) = (false, c :: l) := by
  have := toNat_of_isDigit h
  have hm : c ≠ '-' := fun e => by rw [e] at this; simp at this
  have hp : c ≠ '+' := fun e => by rw [e] at this; simp at this
  simp [readSign, hm, hp]

/-- `ds` is a non-empty run of decimal digits worth `v`. -/
def DigitsOf (ds : List Char) (v : Nat) : Prop :=
  ds ≠ [] ∧ (∀ c ∈ ds, c.isDigit = true) ∧ decimalValue ds = v

theorem digits_split {ds rest : List Char} (hd : ∀ c ∈ ds, c.isDigit = true)
    (hr : (deref rest).isDigit = false) :
    (ds ++ rest).takeWhile Char.isDigit = ds ∧ (ds ++ rest).dropWhile Char.isDigit = rest := by
  rw [List.takeWhile_append_of_pos hd, List.dropWhile_append_of_pos hd]
  cases rest with
  | nil => exact ⟨List.append_nil ds, rfl⟩
  | cons r rs =>
    have hr : ¬r.isDigit = true := by simpa [deref] using hr
    rw [List.takeWhile_cons_of_neg hr, List.dropWhile_cons_of_neg hr, List.append_nil]
    exact ⟨rfl, rfl⟩

theorem dropWhile_isSpace {ws r : List Char} (hws : ∀ c ∈ ws, isSpace c = true)
    (hr : isSpace (deref r) = false) : (ws ++ r).dropWhile isSpace = r := by
  rw [List.dropWhile_append_of_pos hws]
  cases r with
  | nil => rfl
  | cons c cs => exact List.dropWhile_cons_of_neg (by simpa [deref] using hr)

/-- A field of a dotted quad as `strtol` reads it: blanks, an optional sign and
a run of digits, of the value `v`.  A minus sign passes only before a run worth
0, since `ip_addr_pton` rejects a negative value. -/
def OctetText (f : List Char) (v : BitVec 8) : Prop :=
  ∃ ws sg ds, f = ws ++ sg ++ ds ∧ (∀ c ∈ ws, isSpace c = true) ∧
    (sg = [] ∨ sg = ['+'] ∨ (sg = ['-'] ∧ v = 0)) ∧ DigitsOf ds v.toNat

theorem OctetText.ne_nil {f : List Char} {v : BitVec 8} (h : OctetText f v) : f ≠ [] := by
  obtain ⟨ws, sg, ds, rfl, -, -, hne, -⟩ := h
  simp [hne]

/-- **`strtol` on a field** followed by a character that is not a digit: the
field's value, and `ep` at that character. -/
theorem strtol_octetText {f rest : List Char} {v : BitVec 8} (h : OctetText f v)
    (hr : (deref rest).isDigit = false) : strtol (f ++ rest) = ((v.toNat : Int), rest) := by
  obtain ⟨ws, sg, ds, rfl, hws, hsg, hne, hd, hv⟩ := h
  obtain ⟨c, cs, rfl⟩ := List.exists_cons_of_ne_nil hne
  have hc := hd c (List.mem_cons_self c cs)
  have hsplit := digits_split hd hr
  have hsign : isSpace (deref (sg ++ c :: (cs ++ rest))) = false ∧
      readSign (sg ++ c :: (cs ++ rest)) = (decide (sg = ['-']), c :: (cs ++ rest)) := by
    rcases hsg with rfl | rfl | ⟨rfl, -⟩
    · exact ⟨isSpace_of_isDigit hc, readSign_of_isDigit hc _⟩
    · exact ⟨rfl, rfl⟩
    · exact ⟨rfl, rfl⟩
  have hvs : (if decide (sg = ['-']) then -(v.toNat : Int) else v.toNat) = v.toNat := by
    rcases hsg with rfl | rfl | ⟨rfl, rfl⟩ <;> simp
  simp only [List.cons_append, List.append_assoc] at hsplit ⊢
  simp only [strtol, dropWhile_isSpace hws hsign.1, hsign.2, hsplit, if_neg hne, hv, hvs]
  have := v.isLt
  simp only [longMin, longMax, Prod.mk.injEq, and_true]
  omega

/-! ## `%d` -/

/-- `%d` of a non-negative value: its decimal digits, most significant first. -/
def decimal (v : Nat) : List Char := Nat.toDigits 10 v

theorem toDigitsCore_append (f n : Nat) (ds : List Char) :
    Nat.toDigitsCore 10 f n ds = Nat.toDigitsCore 10 f n [] ++ ds := by
  induction f generalizing n ds with
  | zero => rfl
  | succ f ih =>
    simp only [Nat.toDigitsCore]
    split
    · rfl
    · rw [ih _ (_ :: ds), ih _ [_], List.append_assoc, List.singleton_append]

theorem toDigitsCore_fuel (f f' n : Nat) (hf : n < f) (hf' : n < f') (ds : List Char) :
    Nat.toDigitsCore 10 f n ds = Nat.toDigitsCore 10 f' n ds := by
  induction f generalizing f' n ds with
  | zero => omega
  | succ f ih =>
    obtain ⟨g, rfl⟩ : ∃ g, f' = g + 1 := ⟨f' - 1, by omega⟩
    simp only [Nat.toDigitsCore]
    split
    · rfl
    · exact ih g _ (by omega) (by omega) _

/-- **The last digit comes off the end.** -/
theorem decimal_eq (v : Nat) :
    decimal v = (if v < 10 then [] else decimal (v / 10)) ++ [Nat.digitChar (v % 10)] := by
  rw [decimal, Nat.toDigits, Nat.toDigitsCore]
  split
  · rw [if_pos (by omega)]; rfl
  · rw [if_neg (by omega), toDigitsCore_append, decimal, Nat.toDigits,
      toDigitsCore_fuel v (v / 10 + 1) _ (by omega) (by omega)]

theorem digitChar_digit : ∀ d, d < 10 →
    (Nat.digitChar d).isDigit = true ∧ (Nat.digitChar d).toNat - 48 = d := by decide

theorem decimal_digitsOf (v : Nat) : DigitsOf (decimal v) v := by
  induction v using Nat.strong_induction_on with
  | _ v ih =>
    have hd := digitChar_digit (v % 10) (Nat.mod_lt _ (by omega))
    rw [decimal_eq]
    refine ⟨by simp, fun c hc => ?_, ?_⟩
    · rcases List.mem_append.mp hc with hc | hc
      · split at hc
        · cases hc
        · exact (ih (v / 10) (by omega)).2.1 c hc
      · rw [List.mem_singleton.mp hc]; exact hd.1
    · simp only [decimalValue, List.foldl_append, List.foldl_cons, List.foldl_nil, hd.2]
      split
      · simp only [List.foldl_nil]; omega
      · rw [← decimalValue, (ih (v / 10) (by omega)).2.2]; omega

theorem decimal_length_le (v k : Nat) (hk : 1 ≤ k) (h : v < 10 ^ k) : (decimal v).length ≤ k := by
  induction k generalizing v with
  | zero => omega
  | succ k ih =>
    rw [decimal_eq, List.length_append, List.length_singleton]
    split
    · simp only [List.length_nil]; omega
    · have hk' : 1 ≤ k := by
        rcases k with _ | k
        · simp only [Nat.zero_add, pow_one] at h; omega
        · omega
      have := ih (v / 10) hk' (by rw [Nat.pow_succ] at h; omega)
      omega

/-! ## `ip_addr_pton` and `ip_addr_ntop` -/

/-- `((uint8_t *)n)[idx] = v`: the address whose bytes are those of `n` with
byte `idx` replaced by `v`. -/
def setOctet (n : BitVec 32) (idx : Nat) (v : BitVec 8) : BitVec 32 := rd32At ((be32 n).set idx v) 0

/-- `u8[i]` for `u8 = (uint8_t *)&n`. -/
def octet (n : BitVec 32) (i : Nat) : BitVec 8 := (be32 n).getD i 0

/-- The loop of `ip_addr_pton` at octet `idx` with `k` octets left: the result
and `*n` afterwards.  Each octet is stored before the next is read. -/
def ptonLoop : Nat → Nat → List Char → BitVec 32 → Int × BitVec 32
  | 0, _, _, n => (0, n)
  | k + 1, idx, sp, n =>
    let (ret, ep) := strtol sp
    if ret < 0 ∨ ret > 255 then (-1, n)
    else if ep.length = sp.length then (-1, n)
    else if (idx = 3 ∧ deref ep ≠ nul) ∨ (idx ≠ 3 ∧ deref ep ≠ '.') then (-1, n)
    else ptonLoop k (idx + 1) (ep.drop 1) (setOctet n idx (BitVec.ofInt 8 ret))

/-- `ip_addr_pton(p, n)`: the result and `*n` afterwards, `*n` holding `n`
before. -/
def ipAddrPton (p : List Char) (n : BitVec 32) : Int × BitVec 32 := ptonLoop 4 0 p n

/-- What `snprintf` formats from `"%d.%d.%d.%d"` and the four bytes of `n`. -/
def dottedQuad (n : BitVec 32) : List Char :=
  decimal (octet n 0).toNat ++ '.' :: decimal (octet n 1).toNat ++ '.' :: decimal (octet n 2).toNat ++
    '.' :: decimal (octet n 3).toNat

/-- `ip_addr_ntop(n, p, size)`: the C string at `p` afterwards, `p` holding
`buf` before.  `snprintf` writes at most `size - 1` characters and a NUL, and
nothing at all when `size` is 0. -/
def ipAddrNtop (n : BitVec 32) (buf : List Char) (size : Nat) : List Char :=
  if size = 0 then buf else (dottedQuad n).take (size - 1)

/-- `IP_ADDR_STR_LEN` of `ip.h`, which is not among the sources: the 16 bytes
of `"ddd.ddd.ddd.ddd"` and its NUL, the size every caller passes. -/
def ipAddrStrLen : Nat := 16

theorem be32_rd32At (a b c d : BitVec 8) : be32 (rd32At [a, b, c, d] 0) = [a, b, c, d] := by
  have := a.isLt; have := b.isLt; have := c.isLt; have := d.isLt
  simp only [be32, be16, rd32At, rd16At, List.getD_cons_zero, List.getD_cons_succ,
    BitVec.toNat_ofNat, List.cons_append, List.nil_append, List.cons.injEq, and_true]
  refine ⟨?_, ?_, ?_, ?_⟩ <;> apply BitVec.eq_of_toNat_eq <;> simp only [BitVec.toNat_ofNat] <;> omega

theorem be32_eq (n : BitVec 32) : be32 n = [octet n 0, octet n 1, octet n 2, octet n 3] := by
  simp [octet, be32, be16]

theorem be32_injective {n m : BitVec 32} (h : be32 n = be32 m) : n = m := by
  rw [← rd32At_be32 n [], ← rd32At_be32 m [], h]

theorem be32_setOctet (n : BitVec 32) {idx : Nat} (h : idx < 4) (v : BitVec 8) :
    be32 (setOctet n idx v) = (be32 n).set idx v := by
  rw [setOctet, be32_eq n]
  rcases idx with _ | _ | _ | _ | _ <;> first | omega | exact be32_rd32At _ _ _ _

/-- One octet of the loop of `ip_addr_pton` on a field and the right separator
after it: the field's value is stored, and the loop goes on past the
separator. -/
theorem ptonLoop_octetText (k idx : Nat) {f rest : List Char} {v : BitVec 8} (h : OctetText f v)
    (n : BitVec 32) (hr : deref rest = if idx = 3 then nul else '.') :
    ptonLoop (k + 1) idx (f ++ rest) n = ptonLoop k (idx + 1) (rest.drop 1) (setOctet n idx v) := by
  have hsep : (deref rest).isDigit = false := by rw [hr]; split <;> decide
  have hlen : rest.length ≠ (f ++ rest).length := by
    have := List.length_pos_of_ne_nil h.ne_nil
    simp only [List.length_append]
    omega
  simp only [ptonLoop, strtol_octetText h hsep]
  rw [if_neg (by have := v.isLt; omega), if_neg hlen, if_neg (by rw [hr]; split <;> simp_all)]
  congr
  apply BitVec.eq_of_toNat_eq
  simp [Nat.mod_eq_of_lt v.isLt]

/-- `%d` of a byte is a field of its value. -/
theorem octetText_decimal (v : BitVec 8) : OctetText (decimal v.toNat) v :=
  ⟨[], [], decimal v.toNat, rfl, by simp, .inl rfl, decimal_digitsOf _⟩

theorem length_dottedQuad (n : BitVec 32) : (dottedQuad n).length ≤ 15 := by
  have h (i : Nat) : (decimal (octet n i).toNat).length ≤ 3 :=
    decimal_length_le _ 3 (by omega) (by have := (octet n i).isLt; omega)
  simp only [dottedQuad, List.length_append, List.length_cons]
  have := h 0; have := h 1; have := h 2; have := h 3
  omega

/-- With the size every caller passes, `ip_addr_ntop` prints the whole text. -/
theorem ipAddrNtop_strLen (n : BitVec 32) (buf : List Char) :
    ipAddrNtop n buf ipAddrStrLen = dottedQuad n := by
  rw [ipAddrNtop, if_neg (by decide)]
  exact List.take_of_length_le (length_dottedQuad n)

/-- `s` is a dotted quad of the address `n` with fields of the kind `F`: one
field for each byte of `n`, separated by single dots, nothing before or after. -/
def Quad (F : List Char → BitVec 8 → Prop) (s : List Char) (n : BitVec 32) : Prop :=
  ∃ f₀ f₁ f₂ f₃, s = f₀ ++ '.' :: f₁ ++ '.' :: f₂ ++ '.' :: f₃ ∧
    F f₀ (octet n 0) ∧ F f₁ (octet n 1) ∧ F f₂ (octet n 2) ∧ F f₃ (octet n 3)

/-- The four stores of a successful `ip_addr_pton` overwrite every byte. -/
theorem be32_setOctet_four (n : BitVec 32) (a b c d : BitVec 8) :
    be32 (setOctet (setOctet (setOctet (setOctet n 0 a) 1 b) 2 c) 3 d) = [a, b, c, d] := by
  simp only [be32_setOctet _ (by decide : (3 : Nat) < 4), be32_setOctet _ (by decide : (2 : Nat) < 4),
    be32_setOctet _ (by decide : (1 : Nat) < 4), be32_setOctet _ (by decide : (0 : Nat) < 4), be32_eq n]
  rfl

/-- `ip_addr_pton` on a dotted quad of `n` succeeds and stores `n`, whatever
`*n` held. -/
theorem ipAddrPton_of_quad {s : List Char} {n : BitVec 32} (h : Quad OctetText s n) (n₀ : BitVec 32) :
    ipAddrPton s n₀ = (0, n) := by
  obtain ⟨f₀, f₁, f₂, f₃, rfl, h₀, h₁, h₂, h₃⟩ := h
  simp only [List.append_assoc, List.cons_append]
  rw [ipAddrPton, ptonLoop_octetText 3 0 h₀ _ (by rfl), List.drop_one, List.tail_cons,
    ptonLoop_octetText 2 1 h₁ _ (by rfl), List.drop_one, List.tail_cons,
    ptonLoop_octetText 1 2 h₂ _ (by rfl), List.drop_one, List.tail_cons,
    ← List.append_nil f₃, ptonLoop_octetText 0 3 h₃ _ (by rfl), ptonLoop]
  congr
  apply be32_injective
  rw [be32_setOctet_four, be32_eq n]

/-- `%d` of the bytes of `n`, with its dots, is a dotted quad of `n`. -/
theorem quad_dottedQuad (n : BitVec 32) : Quad OctetText (dottedQuad n) n :=
  ⟨_, _, _, _, rfl, octetText_decimal _, octetText_decimal _, octetText_decimal _, octetText_decimal _⟩

/-- **Every address reads back from its text**: `ip_addr_pton` of what
`ip_addr_ntop` printed succeeds and stores the address, whatever `*n` held. -/
theorem ipAddrPton_ipAddrNtop (n n₀ : BitVec 32) (buf : List Char) :
    ipAddrPton (ipAddrNtop n buf ipAddrStrLen) n₀ = (0, n) := by
  rw [ipAddrNtop_strLen]
  exact ipAddrPton_of_quad (quad_dottedQuad n) n₀

end Microps.Ip
