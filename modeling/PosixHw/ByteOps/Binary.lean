import PosixHw.Base.Numeral

/-!
# Binary numerals and their ones

`print_binary` and `count_ones` of `byte_ops/task3.c`; the first one is the same function in
`byte_ops/task1and2.c`, `byte_ops/task4.c` and `pointers/task1.c`.  The width of `unsigned int` is a
parameter.

`print_binary` goes down from the top bit, and does not print zeros before the first one.  What it
has printed above a position is the numeral of the number shifted to there, and the flag says
whether that is zero (`printLoop_spec`).  `count_ones` goes up from the lowest bit; what it has
counted and what it has left make up the ones of the numeral (`countLoop_eq`).
-/

namespace PosixHw
namespace ByteOps

open Numeral

variable {w : ℕ}

/-- `(n >> i) & 1` -/
def bit (n : BitVec w) (i : ℕ) : BitVec w := n >>> i &&& 1

/-- What `printf("%d", d)` prints. -/
def decimal (d : ℕ) : List Char := Nat.toDigits 10 d

/-- Lines 14–21, with the loop variable one below the first argument. -/
def printLoop (n : BitVec w) : ℕ → Bool → List Char → Bool × List Char
  | 0, leadingZero, out => (leadingZero, out)
  | i + 1, leadingZero, out =>
    let leadingZero := if bit n i ≠ 0 then false else leadingZero
    let out := if leadingZero then out else out ++ decimal (bit n i).toNat
    printLoop n i leadingZero out

/-- `print_binary(n)`: what it prints. -/
def printBinary (n : BitVec w) : List Char :=
  let (leadingZero, out) := printLoop n w true []
  (if leadingZero then out ++ ['0'] else out) ++ ['\n']

theorem toNat_eq_zero {n : BitVec w} : n.toNat = 0 ↔ n = 0 := by
  rw [← BitVec.toNat_inj]
  simp

theorem toNat_shiftRight (n : BitVec w) (i : ℕ) : (n >>> i).toNat = n.toNat / 2 ^ i := by
  rw [BitVec.toNat_ushiftRight, Nat.shiftRight_eq_div_pow]

/-- Lines 5–8. -/
def countLoop (n : BitVec w) (count : ℕ) : ℕ :=
  if n = 0 then count else countLoop (n >>> 1) (count + (n &&& 1).toNat)
termination_by n.toNat
decreasing_by
  have hpos := Nat.pos_of_ne_zero (mt toNat_eq_zero.1 ‹_›)
  rw [toNat_shiftRight, pow_one]
  exact Nat.div_lt_self hpos one_lt_two

/-- `count_ones(n)` -/
def countOnes (n : BitVec w) : ℕ := countLoop n 0

/-! ### Bits -/

theorem toNat_and_one (n : BitVec w) : (n &&& 1).toNat = n.toNat % 2 := by
  cases w with
  | zero =>
    rw [BitVec.eq_nil n]
    rfl
  | succ w =>
    have hone : (1 : BitVec (w + 1)).toNat = 1 := by simp
    rw [BitVec.toNat_and, hone, Nat.and_one_is_mod]

theorem toNat_bit (n : BitVec w) (i : ℕ) : (bit n i).toNat = n.toNat / 2 ^ i % 2 := by
  rw [bit, toNat_and_one, toNat_shiftRight]

theorem bit_eq_zero {n : BitVec w} {i : ℕ} : bit n i = 0 ↔ n.toNat / 2 ^ i % 2 = 0 := by
  rw [← toNat_bit, toNat_eq_zero]

/-! ### From the top -/

/-- The characters of digits. -/
def render (ds : List ℕ) : List Char := ds.map Nat.digitChar

theorem decimal_bit (n : BitVec w) (i : ℕ) :
    decimal (bit n i).toNat = render [n.toNat / 2 ^ i % 2] := by
  rw [toNat_bit]
  rcases Nat.mod_two_eq_zero_or_one (n.toNat / 2 ^ i) with h | h
  · rw [h]
    rfl
  · rw [h]
    rfl

/-- What has been printed when the positions from `i` on are done. -/
def printed (n i : ℕ) : List Char := render (Nat.digits 2 (n / 2 ^ i)).reverse

/-- One position: the digit is the last one of the numeral up to there. -/
theorem printed_eq (n i : ℕ) : printed n i =
    if n / 2 ^ i = 0 then printed n (i + 1)
    else printed n (i + 1) ++ render [n / 2 ^ i % 2] := by
  have hdiv : n / 2 ^ (i + 1) = n / 2 ^ i / 2 := by rw [pow_succ, Nat.div_div_eq_div_mul]
  unfold printed
  split_ifs with hn
  · rw [hdiv, hn]
  · rw [reverse_digits one_lt_two hn, hdiv, render, List.map_append]
    rfl

/-- **The loop of `print_binary`**: from any position on, it brings the flag and the output to what
they are at the lowest one. -/
theorem printLoop_spec (n : BitVec w) (i : ℕ) :
    printLoop n i (decide (n.toNat / 2 ^ i = 0)) (printed n.toNat i)
      = (decide (n.toNat = 0), printed n.toNat 0) := by
  induction i with
  | zero =>
    rw [printLoop, pow_zero, Nat.div_one]
  | succ i ih =>
    have hdiv : n.toNat / 2 ^ (i + 1) = n.toNat / 2 ^ i / 2 := by
      rw [pow_succ, Nat.div_div_eq_div_mul]
    have hflag : (if bit n i ≠ 0 then false else decide (n.toNat / 2 ^ (i + 1) = 0))
        = decide (n.toNat / 2 ^ i = 0) := by
      rw [hdiv]
      by_cases hbit : bit n i = 0
      · have hmod := bit_eq_zero.1 hbit
        rw [if_neg (not_not.2 hbit), decide_eq_decide]
        omega
      · have hmod := mt bit_eq_zero.2 hbit
        rw [if_pos hbit, eq_comm, decide_eq_false_iff_not]
        omega
    rw [printLoop, hflag, decimal_bit]
    have hout := printed_eq n.toNat i
    by_cases hn : n.toNat / 2 ^ i = 0
    · rw [if_pos hn] at hout
      simp only [hn, decide_true, if_true, ← hout] at ih ⊢
      exact ih
    · rw [if_neg hn] at hout
      simp only [hn, decide_false, ← hout] at ih ⊢
      exact ih

/-- **What is printed**: the numeral. -/
theorem printBinary_eq (n : BitVec w) :
    printBinary n = render (numeral 2 n.toNat) ++ ['\n'] := by
  have htop : n.toNat / 2 ^ w = 0 := Nat.div_eq_of_lt n.isLt
  have hloop := printLoop_spec n w
  rw [printed, htop, Nat.digits_zero] at hloop
  change printLoop n w true [] = _ at hloop
  rw [printBinary, hloop]
  by_cases hn : n.toNat = 0
  · simp [hn, printed, render]
  · simp [hn, printed, numeral_of_ne_zero]

/-! ### From the bottom -/

/-- **The loop of `count_ones`** adds the ones of what is left. -/
theorem countLoop_eq (n : BitVec w) (count : ℕ) :
    countLoop n count = count + (Nat.digits 2 n.toNat).count 1 := by
  fun_induction countLoop n count with
  | case1 count => simp
  | case2 n count hn ih =>
    have hpos := Nat.pos_of_ne_zero (mt toNat_eq_zero.1 hn)
    rw [ih, toNat_shiftRight, pow_one, toNat_and_one, Nat.digits_def' one_lt_two hpos,
      List.count_cons]
    rcases Nat.mod_two_eq_zero_or_one n.toNat with h | h
    · simp [h]
    · simp [h]
      omega

theorem countOnes_eq (n : BitVec w) : countOnes n = (numeral 2 n.toNat).count 1 := by
  rw [countOnes, countLoop_eq, Nat.zero_add]
  by_cases hn : n.toNat = 0
  · simp [hn]
  · rw [numeral_of_ne_zero hn, List.count_reverse]

/-- The characters of binary digits can be counted in place of the digits. -/
theorem count_render {ds : List ℕ} (h : ∀ d ∈ ds, d < 2) : (render ds).count '1' = ds.count 1 := by
  induction ds with
  | nil => rfl
  | cons d ds ih =>
    obtain ⟨hd, hds⟩ := List.forall_mem_cons.1 h
    rw [render, List.map_cons, List.count_cons, List.count_cons]
    have hchar : (d.digitChar == '1') = (d == 1) := by interval_cases d <;> rfl
    rw [hchar]
    exact congrArg (· + _) (ih hds)

/-- **The two functions agree.** The digits that `print_binary` prints are the binary numeral of the
number, which begins with a one or is the single digit zero, and `count_ones` is the number of ones
among them. -/
theorem printBinary_countOnes (n : BitVec w) :
    ∃ ds, printBinary n = render ds ++ ['\n'] ∧ IsNumeral 2 n.toNat ds ∧
      (n = 0 → ds = [0]) ∧ (n ≠ 0 → ds.head? = some 1) ∧
      countOnes n = (printBinary n).count '1' := by
  have hnumeral := isNumeral_numeral one_lt_two n.toNat
  refine ⟨_, printBinary_eq n, hnumeral, fun hn => hnumeral.zero (toNat_eq_zero.2 hn),
    fun hn => hnumeral.head_binary (mt toNat_eq_zero.1 hn), ?_⟩
  rw [printBinary_eq, List.count_append, count_render hnumeral.lt, countOnes_eq]
  rfl

end ByteOps
end PosixHw
