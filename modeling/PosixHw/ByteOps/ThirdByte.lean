import PosixHw.Base.Storage
import PosixHw.ByteOps.Binary

/-!
# The third byte of a number

`main` of `pointers/task1.c` and of `byte_ops/task4.c`: both replace the third byte of a number, the
first one through a pointer to its storage, the second one with a mask and a shift.  Everything else
in them is the same.  The host is little-endian, and `unsigned int` has 32 bits.

The mask is the complement of a signed constant, which is converted to `unsigned int` before it is
used (`getLsbD_mask`).  `replaceStored_eq` says that the two ways agree bit by bit.
-/

namespace PosixHw
namespace ByteOps

open CString Storage

/-- `~(0xFF << 16)`, an `int`. -/
def mask : ℤ := ~~~(0xFF <<< 16)

/-- Lines 35–37 of `pointers/task1.c`: the new value is converted to `unsigned char`. -/
def replaceStored (num newByte : BitVec 32) : Option (BitVec 32) :=
  (store (bytes 4 num) 2 (.ofBitVec (newByte.setWidth 8))).map (value 32)

/-- Lines 35–36 of `byte_ops/task4.c`: the mask is converted to `unsigned int`. -/
def replaceMasked (num newByte : BitVec 32) : BitVec 32 :=
  num &&& BitVec.ofInt 32 mask ||| newByte <<< 16

/-- What is printed, and the exit status. -/
structure Result where
  out : List Char
  status : ℕ
  deriving DecidableEq

/-- The texts of `printf`. -/
def askNumber : List Char := "Введите положительное число: ".toList
def binary : List Char := "Двоичное представление: ".toList
def askByte : List Char := "Введите значение для третьего байта (0-255): ".toList
def outOfRange : List Char := "Значение должно быть в диапазоне 0-255.\n".toList
def changed : List Char := "Измененное число: ".toList

/-- Both programs, with `num` and `newByte` as they are after the calls of `scanf`. -/
def program (replace : BitVec 32 → BitVec 32 → Option (BitVec 32)) (num newByte : BitVec 32) :
    Option Result :=
  let out := askNumber ++ binary ++ printBinary num ++ askByte
  if newByte > 255 then some ⟨out ++ outOfRange, 1⟩
  else (replace num newByte).map fun num =>
    ⟨out ++ changed ++ decimal num.toNat ++ ['\n'] ++ binary ++ printBinary num, 0⟩

/-- `main` of `pointers/task1.c` -/
def mainStored (num newByte : BitVec 32) : Option Result := program replaceStored num newByte

/-- `main` of `byte_ops/task4.c` -/
def mainMasked (num newByte : BitVec 32) : Option Result :=
  program (fun num newByte => some (replaceMasked num newByte)) num newByte

variable {num newByte second : BitVec 32}

/-- The bits of the mask, once it is unsigned. -/
theorem getLsbD_mask : ∀ j < 32, (BitVec.ofInt 32 mask).getLsbD j = decide (j / 8 ≠ 2) := by
  decide

/-- A byte has no bits from the eighth on. -/
theorem getLsbD_eq_false (h : newByte ≤ 255) {j : ℕ} (hj : 8 ≤ j) : newByte.getLsbD j = false := by
  have hlt : newByte.toNat < 2 ^ 8 := Nat.lt_succ_of_le (BitVec.le_def.1 h)
  rw [← BitVec.testBit_toNat]
  exact Nat.testBit_lt_two_pow (lt_of_lt_of_le hlt (Nat.pow_le_pow_right (by decide) hj))

/-- The bits after the masking. -/
theorem getLsbD_replaceMasked (h : newByte ≤ 255) {j : ℕ} (hj : j < 32) :
    (replaceMasked num newByte).getLsbD j =
      if j / 8 = 2 then newByte.getLsbD (j % 8) else num.getLsbD j := by
  rw [replaceMasked, BitVec.getLsbD_or, BitVec.getLsbD_and, getLsbD_mask j hj,
    BitVec.getLsbD_shiftLeft, decide_eq_true hj, Bool.true_and]
  by_cases hthird : j / 8 = 2
  · have hlow : ¬ j < 16 := by omega
    have hmod : j - 16 = j % 8 := by omega
    simp [hthird, hlow, hmod]
  · by_cases hlow : j < 16
    · simp [hthird, hlow]
    · simp [hthird, getLsbD_eq_false h (by omega : 8 ≤ j - 16)]

/-- **The two ways agree**, for every byte that passes the check. -/
theorem replaceStored_eq (h : newByte ≤ 255) :
    replaceStored num newByte = some (replaceMasked num newByte) := by
  have hlen : 2 < (bytes 4 num).length := by simp
  rw [replaceStored, store, if_pos hlen, Option.map_some, Option.some_inj]
  apply BitVec.eq_of_getLsbD_eq
  intro j hj
  rw [value_set hlen, getLsbD_replaceMasked h hj, value_bytes (by decide), decide_eq_true hj,
    Bool.true_and]
  by_cases hthird : j / 8 = 2
  · have hmod := Nat.mod_lt j (by decide : 0 < 8)
    simp [hthird, hmod]
  · rw [if_neg hthird, if_neg hthird]

/-- The second change leaves nothing of the first one. -/
theorem replaceMasked_replaceMasked (h : newByte ≤ 255) (h' : second ≤ 255) :
    replaceMasked (replaceMasked num newByte) second = replaceMasked num second := by
  apply BitVec.eq_of_getLsbD_eq
  intro j hj
  rw [getLsbD_replaceMasked h' hj, getLsbD_replaceMasked h' hj, getLsbD_replaceMasked h hj]
  split_ifs
  · rfl
  · rfl

/-- The programs print the same, and both reject the same bytes. -/
theorem mainStored_eq (num newByte : BitVec 32) :
    mainStored num newByte = mainMasked num newByte := by
  unfold mainStored mainMasked program
  by_cases h : newByte > 255
  · rw [if_pos h, if_pos h]
  · rw [if_neg h, if_neg h, replaceStored_eq (BitVec.not_lt.1 h)]

/-- **The third byte.** Both ways give the same number; its bits 16 to 23 are the new byte, the
others are those of the old number, and of two changes only the second one counts. -/
theorem thirdByte_replaced (num newByte : BitVec 32) (h : newByte ≤ 255) :
    ∃ n, replaceStored num newByte = some n ∧ replaceMasked num newByte = n ∧
      (∀ i < 8, n.getLsbD (16 + i) = newByte.getLsbD i) ∧
      (∀ i, i < 16 ∨ 24 ≤ i → n.getLsbD i = num.getLsbD i) ∧
      ∀ second ≤ 255, replaceMasked n second = replaceMasked num second ∧
        replaceStored n second = replaceStored num second := by
  refine ⟨_, replaceStored_eq h, rfl, fun i hi => ?_, fun i hi => ?_, fun second h' => ?_⟩
  · have hthird : (16 + i) / 8 = 2 := by omega
    have hmod : (16 + i) % 8 = i := by omega
    rw [getLsbD_replaceMasked h (by omega), if_pos hthird, hmod]
  · by_cases hlt : i < 32
    · have hthird : i / 8 ≠ 2 := by omega
      rw [getLsbD_replaceMasked h hlt, if_neg hthird]
    · rw [BitVec.getLsbD_of_ge _ _ (not_lt.1 hlt), BitVec.getLsbD_of_ge _ _ (not_lt.1 hlt)]
  · have hmasked : replaceMasked (replaceMasked num newByte) second = replaceMasked num second :=
      replaceMasked_replaceMasked h h'
    exact ⟨hmasked, by rw [replaceStored_eq h', replaceStored_eq h', hmasked]⟩

theorem thirdByte_replaced_sample :
    ∃ n, replaceStored 0x12345678 0xAB = some n ∧ n.getLsbD 16 = true ∧ n.getLsbD 0 = false := by
  obtain ⟨n, hn, -, hthird, hother, -⟩ := thirdByte_replaced 0x12345678 0xAB (by decide)
  exact ⟨n, hn, (hthird 0 (by decide)).trans (by decide),
    (hother 0 (.inl (by decide))).trans (by decide)⟩

end ByteOps
end PosixHw
