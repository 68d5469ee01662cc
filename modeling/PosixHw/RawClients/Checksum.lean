import Mathlib.Data.Int.ModEq
import Mathlib.Algebra.BigOperators.Ring.Finset
import PosixHw.Base.Packet

/-!
# The checksum of an IP header

`checksum` adds the ten words of a header in a `long`, which has room for them, folds the carries
back into 16 bits and returns the complement of the result as a `short`.

Folding keeps a number modulo 65535 and keeps it positive, and both together determine the result
(`fold_eq_iff`).
-/

namespace PosixHw
namespace RawClients

open Packet

/-- `while ((tmp = csum >> 16)) csum = (csum & 0xFFFF) + tmp;` -/
def fold (csum : ℕ) : ℕ :=
  let tmp := csum >>> 16
  if tmp = 0 then csum else fold ((csum &&& 0xFFFF) + tmp)
termination_by csum
decreasing_by
  have hand : csum &&& 0xFFFF = csum % 65536 := Nat.and_two_pow_sub_one_eq_mod csum 16
  omega

/-- `for (..; i < n; ++i) { csum += *ptr; ++ptr; }` -/
def sum (m : Mem) : ℕ → ℕ → ℕ → Option ℕ
  | 0, _, csum => some csum
  | n + 1, ptr, csum => (word m ptr).bind fun w => sum m n (ptr + 2) (csum + w)

/-- `checksum((struct iphdr *)(m + p))` -/
def checksum (m : Mem) (p : ℕ) : Option Int16 :=
  (sum m 10 p 0).map fun csum => Int16.ofInt (~~~(fold csum : ℤ))

/-! ### Folding -/

/-- One round of the loop. -/
theorem fold_step (n : ℕ) : fold n = if n < 65536 then n else fold (n % 65536 + n / 65536) := by
  have hshift : n >>> 16 = n / 65536 := Nat.shiftRight_eq_div_pow n 16
  have hand : n &&& 0xFFFF = n % 65536 := Nat.and_two_pow_sub_one_eq_mod n 16
  rw [fold]
  simp only [hshift, hand]
  split_ifs with h1 h2
  · rfl
  · omega
  · omega
  · rfl

theorem fold_lt (n : ℕ) : fold n < 65536 := by
  induction n using Nat.strong_induction_on with
  | _ n ih =>
    rw [fold_step]
    split_ifs with h
    · exact h
    · exact ih _ (by omega)

theorem fold_pos {n : ℕ} (hn : 0 < n) : 0 < fold n := by
  induction n using Nat.strong_induction_on with
  | _ n ih =>
    rw [fold_step]
    split_ifs with h
    · exact hn
    · exact ih _ (by omega) (by omega)

/-- A carry is worth one, since `65536 ≡ 1`. -/
theorem fold_modEq (n : ℕ) : fold n ≡ n [MOD 65535] := by
  induction n using Nat.strong_induction_on with
  | _ n ih =>
    rw [fold_step]
    split_ifs with h
    · rfl
    · refine (ih _ (by omega)).trans ?_
      unfold Nat.ModEq
      omega

/-- **Positive sums fold to the same word exactly if they are equal modulo 65535.** -/
theorem fold_eq_iff {n k : ℕ} (hn : 0 < n) (hk : 0 < k) :
    fold n = fold k ↔ n ≡ k [MOD 65535] := by
  constructor
  · intro h
    exact (fold_modEq n).symm.trans (h ▸ fold_modEq k)
  · intro h
    have hmod : fold n ≡ fold k [MOD 65535] :=
      ((fold_modEq n).trans h).trans (fold_modEq k).symm
    have hn' := fold_pos hn
    have hk' := fold_pos hk
    have hn'' := fold_lt n
    have hk'' := fold_lt k
    unfold Nat.ModEq at hmod
    omega

theorem fold_eq_max_iff {n : ℕ} (hn : 0 < n) : fold n = 65535 ↔ n ≡ 0 [MOD 65535] := by
  have hpos := fold_pos hn
  have hlt := fold_lt n
  have hmod := fold_modEq n
  unfold Nat.ModEq at hmod ⊢
  omega

/-- **What a receiver finds** who adds the complement of a sum to the words under it: if the sum
was over one word more than those, the result is `0xFFFF` exactly if that word was zero, as a ones'
complement number. -/
theorem fold_complement_iff {r k : ℕ} (hr : 0 < r) :
    fold (r + (65535 - fold (r + k))) = 65535 ↔ k ≡ 0 [MOD 65535] := by
  have hlt := fold_lt (r + k)
  have hmod := fold_modEq (r + k)
  rw [fold_eq_max_iff (Nat.add_pos_left hr _)]
  unfold Nat.ModEq at hmod ⊢
  omega

/-! ### The sum and its complement -/

variable {m : Mem} {p n : ℕ} {w : ℕ → ℕ}

theorem sum_eq (h : ∀ i < n, word m (p + 2 * i) = some (w i)) (csum : ℕ) :
    sum m n p csum = some (csum + ∑ i ∈ Finset.range n, w i) := by
  induction n generalizing p csum w with
  | zero => rfl
  | succ n ih =>
    have hw : word m p = some (w 0) := h 0 n.succ_pos
    have htail : ∀ i < n, word m (p + 2 + 2 * i) = some (w (i + 1)) := by
      intro i hi
      rw [← h (i + 1) (by omega)]
      congr 1
      ring
    rw [sum, hw, Option.bind_some, ih htail, Finset.sum_range_succ', add_assoc, add_comm (w 0)]

/-- The complement of a word, in the 16 bits that are stored. -/
theorem toNat_complement {n : ℕ} (hn : n < 65536) :
    (Int16.ofInt (~~~(n : ℤ))).toUInt16.toNat = 65535 - n := by
  have hnot : ~~~(n : ℤ) = -n - 1 := by
    show Int.negSucc n = _
    rw [Int.negSucc_eq]
    ring
  show (BitVec.ofInt 16 (~~~(n : ℤ))).toNat = _
  rw [BitVec.toNat_ofInt, hnot]
  omega

/-- **The checksums of two headers are the same word exactly if their sums are equal modulo
65535**; no sum of a header is zero. -/
theorem checksum_eq_iff {m' : Mem} {p' s s' : ℕ} {c c' : Int16} (hs : sum m 10 p 0 = some s)
    (hs' : sum m' 10 p' 0 = some s') (hpos : 0 < s) (hpos' : 0 < s') (hc : checksum m p = some c)
    (hc' : checksum m' p' = some c') :
    c.toUInt16 = c'.toUInt16 ↔ s ≡ s' [MOD 65535] := by
  rw [checksum, hs, Option.map_some, Option.some_inj] at hc
  rw [checksum, hs', Option.map_some, Option.some_inj] at hc'
  subst hc hc'
  have hlt := fold_lt s
  have hlt' := fold_lt s'
  rw [← UInt16.toNat_inj, toNat_complement hlt, toNat_complement hlt', ← fold_eq_iff hpos hpos']
  omega

end RawClients
end PosixHw
