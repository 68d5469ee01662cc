import PosixHw.Base.CString

/-!
# Numbers in memory

The bytes of an unsigned number on a little-endian host: `bytes k n` is what stands in memory for
`n`, and `value w m` is the number of `w` bits that is read from the bytes `m`.

`getLsbD_value` finds each bit of a number in its byte.  So what is stored is read again
(`value_bytes`), and to overwrite a byte changes the eight bits that belong to it (`value_set`).
-/

namespace PosixHw
namespace Storage

variable {w k p i j : ℕ} {n : BitVec w} {m : Mem} {b : UInt8}

/-- The byte `i` of a number, the lowest one being the byte 0. -/
def byte (n : BitVec w) (i : ℕ) : UInt8 := .ofBitVec (n.extractLsb' (8 * i) 8)

/-- The first `k` bytes of a number. -/
def bytes (k : ℕ) (n : BitVec w) : Mem := (List.range k).map (byte n)

/-- The number that has these bytes. -/
def value (w : ℕ) : Mem → BitVec w
  | [] => 0
  | b :: m => b.toBitVec.setWidth w ||| value w m <<< 8

@[simp] theorem length_bytes (k : ℕ) (n : BitVec w) : (bytes k n).length = k := by
  simp [bytes]

theorem getElem?_bytes (h : i < k) : (bytes k n)[i]? = some (byte n i) := by
  rw [bytes, List.getElem?_map, List.getElem?_range h, Option.map_some]

theorem getLsbD_byte (hj : j < 8) : (byte n i).toBitVec.getLsbD j = n.getLsbD (8 * i + j) := by
  rw [byte, BitVec.getLsbD_extractLsb', decide_eq_true hj, Bool.true_and]

/-- **Where a bit stands**: in the byte `j / 8`, at the place `j % 8`. -/
theorem getLsbD_value (m : Mem) (j : ℕ) : (value w m).getLsbD j =
    (decide (j < w) && (m.getD (j / 8) 0).toBitVec.getLsbD (j % 8)) := by
  induction m generalizing j with
  | nil => simp [value]
  | cons b m ih =>
    rw [value, BitVec.getLsbD_or, BitVec.getLsbD_setWidth, BitVec.getLsbD_shiftLeft, ih]
    by_cases hj : j < 8
    · simp [hj, Nat.div_eq_of_lt hj, Nat.mod_eq_of_lt hj]
    · obtain ⟨i, rfl⟩ := Nat.exists_eq_add_of_le (not_lt.1 hj)
      have hdiv : (8 + i) / 8 = i / 8 + 1 := by omega
      have hmod : (8 + i) % 8 = i % 8 := by omega
      have hhigh : b.toBitVec.getLsbD (8 + i) = false := BitVec.getLsbD_of_ge _ _ (by omega)
      rw [hhigh, hdiv, hmod, List.getD_cons_succ]
      by_cases hw : 8 + i < w
      · have hi : i < w := by omega
        simp [hw, hi]
      · simp [hw]

/-- What is stored is read again. -/
theorem value_bytes (h : w ≤ 8 * k) : value w (bytes k n) = n := by
  apply BitVec.eq_of_getLsbD_eq
  intro j hj
  have hk : j / 8 < k := by omega
  rw [getLsbD_value, decide_eq_true hj, Bool.true_and, List.getD_eq_getElem?_getD,
    getElem?_bytes hk, Option.getD_some, getLsbD_byte (Nat.mod_lt j (by decide)),
    Nat.div_add_mod]

/-- **To overwrite a byte** changes its bits, and no others. -/
theorem value_set (hp : p < m.length) : (value w (m.set p b)).getLsbD j =
    if j / 8 = p then decide (j < w) && b.toBitVec.getLsbD (j % 8) else (value w m).getLsbD j := by
  rw [getLsbD_value, getLsbD_value, List.getD_eq_getElem?_getD, List.getElem?_set]
  by_cases hj : j / 8 = p
  · simp [hj, hp]
  · simp [hj, Ne.symm hj]

end Storage
end PosixHw
