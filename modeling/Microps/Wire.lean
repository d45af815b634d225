import Mathlib.Data.BitVec
import Mathlib.Data.List.GetD

/-!
# Byte order and the Internet checksum

The stack keeps addresses and ports in network order and converts sequence
numbers, acknowledgements and windows with `hton16`/`hton32`.  A value here is
its big-endian reading: `be16 v` and `be32 v` are the bytes `hton16`/`hton32`
store, and `rd16At`/`rd32At` read a field back (`rd16At_be16`, `rd32At_be32`).

`cksum16` lives in `util.c`, which is not among the sources; it is modelled
from the spec (§4.1).  `sum16` adds the 16-bit words, `fold16` adds the carries
back in, and the fold is the residue modulo `0xffff` (`fold16_eq`).  The fact a
receiver relies on is `cksum16_fill`: a range whose checksum field holds the
checksum of the same range with the field cleared has checksum zero.
-/

namespace Microps

/-! ### Network order -/

/-- The two bytes `hton16 v` stores. -/
def be16 (v : BitVec 16) : List (BitVec 8) :=
  [BitVec.ofNat 8 (v.toNat / 256), BitVec.ofNat 8 v.toNat]

/-- The four bytes `hton32 v` stores. -/
def be32 (v : BitVec 32) : List (BitVec 8) :=
  be16 (BitVec.ofNat 16 (v.toNat / 65536)) ++ be16 (BitVec.ofNat 16 v.toNat)

/-- `ntoh16` of the two bytes at offset `i`. -/
def rd16At (l : List (BitVec 8)) (i : Nat) : BitVec 16 :=
  BitVec.ofNat 16 ((l.getD i 0).toNat * 256 + (l.getD (i + 1) 0).toNat)

/-- `ntoh32` of the four bytes at offset `i`. -/
def rd32At (l : List (BitVec 8)) (i : Nat) : BitVec 32 :=
  BitVec.ofNat 32 ((rd16At l i).toNat * 65536 + (rd16At l (i + 2)).toNat)

@[simp] theorem length_be16 (v : BitVec 16) : (be16 v).length = 2 := rfl

@[simp] theorem length_be32 (v : BitVec 32) : (be32 v).length = 4 := rfl

theorem getD_append_length (l l' : List (BitVec 8)) (i : Nat) :
    (l ++ l').getD (l.length + i) 0 = l'.getD i 0 := by
  rw [List.getD_append_right _ _ _ _ (Nat.le_add_right _ _), Nat.add_sub_cancel_left]

theorem rd16At_append_left (l l' : List (BitVec 8)) (i : Nat) :
    rd16At (l ++ l') (l.length + i) = rd16At l' i := by
  simp only [rd16At, Nat.add_assoc, getD_append_length]

theorem rd32At_append_left (l l' : List (BitVec 8)) (i : Nat) :
    rd32At (l ++ l') (l.length + i) = rd32At l' i := by
  simp only [rd32At, rd16At_append_left, Nat.add_assoc]

theorem rd16At_append_of_le {l : List (BitVec 8)} (l' : List (BitVec 8)) {n : Nat}
    (h : l.length ≤ n) : rd16At (l ++ l') n = rd16At l' (n - l.length) := by
  rw [← rd16At_append_left l l', Nat.add_sub_cancel' h]

theorem rd32At_append_of_le {l : List (BitVec 8)} (l' : List (BitVec 8)) {n : Nat}
    (h : l.length ≤ n) : rd32At (l ++ l') n = rd32At l' (n - l.length) := by
  rw [← rd32At_append_left l l', Nat.add_sub_cancel' h]

theorem rd16At_be16 (v : BitVec 16) (l : List (BitVec 8)) : rd16At (be16 v ++ l) 0 = v := by
  apply BitVec.eq_of_toNat_eq
  simp only [rd16At, be16, List.cons_append, List.getD_cons_zero, List.getD_cons_succ,
    BitVec.toNat_ofNat]
  omega

theorem rd32At_be32 (v : BitVec 32) (l : List (BitVec 8)) : rd32At (be32 v ++ l) 0 = v := by
  have h := rd16At_append_left (be16 (BitVec.ofNat 16 (v.toNat / 65536)))
    (be16 (BitVec.ofNat 16 v.toNat) ++ l) 0
  simp only [length_be16, Nat.add_zero] at h
  apply BitVec.eq_of_toNat_eq
  simp only [rd32At, be32, List.append_assoc, rd16At_be16, h, BitVec.toNat_ofNat]
  omega

/-! ### The one's-complement sum -/

/-- The sum of the big-endian 16-bit words of a range; an odd last byte is the
high byte of a word whose low byte is zero. -/
def sum16 : List (BitVec 8) → Nat
  | [] => 0
  | [a] => a.toNat * 256
  | a :: b :: l => (a.toNat * 256 + b.toNat) + sum16 l

/-- Add the carries out of the low 16 bits back in, at most `fuel` times. -/
def foldCarries : Nat → Nat → Nat
  | 0, sum => sum
  | fuel + 1, sum => if sum / 0x10000 = 0 then sum else foldCarries fuel (sum % 0x10000 + sum / 0x10000)

/-- Add the carries back in until none is left; every round takes at least
`0xffff` off, so `sum` rounds are enough. -/
def fold16 (sum : Nat) : Nat := foldCarries sum sum

/-- Modelled from the spec: `cksum16` of `util.c` (§4.1), the complement of the
one's-complement sum of the range's words started from the partial sum `init`.
One's-complement sums commute with swapping the two bytes of every word, so
adding big-endian words puts the same bytes in the checksum field as adding the
host's words. -/
def cksum16 (data : List (BitVec 8)) (init : BitVec 16) : BitVec 16 :=
  ~~~(BitVec.ofNat 16 (fold16 (init.toNat + sum16 data)))

theorem sum16_append (l l' : List (BitVec 8)) (h : l.length % 2 = 0) :
    sum16 (l ++ l') = sum16 l + sum16 l' := by
  induction l using sum16.induct with
  | case1 => simp [sum16]
  | case2 a => simp at h
  | case3 a b l ih =>
    simp only [List.length_cons] at h
    rw [List.cons_append, List.cons_append, sum16, sum16, ih (by omega)]
    omega

@[simp] theorem sum16_be16 (v : BitVec 16) : sum16 (be16 v) = v.toNat := by
  simp only [be16, sum16, BitVec.toNat_ofNat]
  omega

theorem sum16_be32 (v : BitVec 32) :
    sum16 (be32 v) = v.toNat / 65536 + v.toNat % 65536 := by
  simp only [be32, sum16_append (be16 _) _ (by simp), sum16_be16, BitVec.toNat_ofNat]
  omega

theorem foldCarries_eq : ∀ fuel sum, sum ≤ 0xffff * (fuel + 1) →
    foldCarries fuel sum = if sum = 0 then 0 else (sum - 1) % 0xffff + 1
  | 0, sum, h => by
    rw [foldCarries]
    split <;> omega
  | fuel + 1, sum, h => by
    rw [foldCarries]
    split
    · split <;> omega
    · rw [foldCarries_eq fuel _ (by omega)]
      split <;> split <;> omega

/-- **The fold is the residue modulo `0xffff`**, taken in `1 .. 0xffff` for a
positive sum. -/
theorem fold16_eq (sum : Nat) : fold16 sum = if sum = 0 then 0 else (sum - 1) % 0xffff + 1 :=
  foldCarries_eq sum sum (by omega)

theorem fold16_le (sum : Nat) : fold16 sum ≤ 0xffff := by
  rw [fold16_eq]
  split <;> omega

/-- Adding the complement of the fold makes the fold all ones. -/
theorem fold16_add_compl (x : Nat) : fold16 (x + (0xffff - fold16 x)) = 0xffff := by
  rw [fold16_eq, fold16_eq x]
  split <;> split <;> omega

/-- **Verification of a filled-in checksum.**  Write into a cleared 16-bit
field at an even offset the checksum of the whole range; the checksum of the
result is zero. -/
theorem cksum16_fill (pre post : List (BitVec 8)) (init : BitVec 16)
    (h : pre.length % 2 = 0) :
    cksum16 (pre ++ be16 (cksum16 (pre ++ be16 0 ++ post) init) ++ post) init = 0 := by
  have hs : ∀ v, sum16 (pre ++ be16 v ++ post) = sum16 pre + v.toNat + sum16 post := fun v => by
    rw [List.append_assoc, sum16_append _ _ h, sum16_append (be16 v) _ (by simp), sum16_be16]; omega
  obtain ⟨x, hx⟩ : ∃ x, x = init.toNat + (sum16 pre + sum16 post) := ⟨_, rfl⟩
  have h0 : init.toNat + sum16 (pre ++ be16 0 ++ post) = x := by
    rw [hs, hx]
    simp
  have hc : (cksum16 (pre ++ be16 0 ++ post) init).toNat = 0xffff - fold16 x := by
    have := fold16_le x
    simp only [cksum16, h0, BitVec.toNat_not, BitVec.toNat_ofNat]
    omega
  have hsum : init.toNat + sum16 (pre ++ be16 (cksum16 (pre ++ be16 0 ++ post) init) ++ post)
      = x + (0xffff - fold16 x) := by
    rw [hs, hc, hx]
    omega
  rw [cksum16, hsum, fold16_add_compl]
  rfl

theorem fold16_fold16_add (x y : Nat) : fold16 (fold16 x + y) = fold16 (x + y) := by
  rw [fold16_eq (fold16 x + y), fold16_eq (x + y), fold16_eq x]
  split_ifs <;> omega

/-- **Checksums chain.**  Started from the complement of the checksum of an
even-length `pre`, the checksum of `data` is that of `pre ++ data`: this is how
`tcp_input` and `tcp_output_segment` add the pseudo-header. -/
theorem cksum16_append (pre data : List (BitVec 8)) (init : BitVec 16) (h : pre.length % 2 = 0) :
    cksum16 data (~~~(cksum16 pre init)) = cksum16 (pre ++ data) init := by
  have hf := fold16_le (init.toNat + sum16 pre)
  have hc : (~~~(cksum16 pre init)).toNat = fold16 (init.toNat + sum16 pre) := by
    rw [cksum16, BitVec.not_not, BitVec.toNat_ofNat]; omega
  calc cksum16 data (~~~(cksum16 pre init))
      = ~~~(BitVec.ofNat 16 (fold16 ((~~~(cksum16 pre init)).toNat + sum16 data))) := rfl
    _ = cksum16 (pre ++ data) init := by
      rw [hc, fold16_fold16_add, cksum16, sum16_append _ _ h, Nat.add_assoc]

end Microps
