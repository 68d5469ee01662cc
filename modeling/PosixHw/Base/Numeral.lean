import Mathlib.Tactic
import Mathlib.Data.Nat.Digits.Lemmas

/-!
# Numerals

The digits of a number, the most significant one first, as they are written.  `IsNumeral` says which
lists of digits are the numeral of a number: there is no zero at the start, except in the numeral
of zero.  Each number has one, `numeral b n` (`isNumeral_numeral`).

`reverse_digits` is the rule for programs that find the digits from the top: the digits of `n` are
those of `n / b` and one more.
-/

namespace PosixHw
namespace Numeral

/-- `ds` is the numeral of `n` to the base `b`. -/
structure IsNumeral (b n : ℕ) (ds : List ℕ) : Prop where
  lt : ∀ d ∈ ds, d < b
  value : Nat.ofDigits b ds.reverse = n
  zero : n = 0 → ds = [0]
  head : n ≠ 0 → ds.head? ≠ some 0

/-- The numeral of `n` to the base `b`. -/
def numeral (b n : ℕ) : List ℕ := if n = 0 then [0] else (Nat.digits b n).reverse

variable {b n : ℕ} {ds : List ℕ}

@[simp] theorem numeral_zero (b : ℕ) : numeral b 0 = [0] := if_pos rfl

theorem numeral_of_ne_zero (hn : n ≠ 0) : numeral b n = (Nat.digits b n).reverse := if_neg hn

/-- The last digit, and those before it. -/
theorem reverse_digits (hb : 1 < b) (hn : n ≠ 0) :
    (Nat.digits b n).reverse = (Nat.digits b (n / b)).reverse ++ [n % b] := by
  rw [Nat.digits_def' hb (Nat.pos_of_ne_zero hn), List.reverse_cons]

theorem isNumeral_numeral (hb : 1 < b) (n : ℕ) : IsNumeral b n (numeral b n) := by
  by_cases hn : n = 0
  · subst hn
    rw [numeral_zero]
    refine ⟨fun d hd => ?_, by simp, fun _ => rfl, fun h => absurd rfl h⟩
    rw [List.mem_singleton.1 hd]
    omega
  · rw [numeral_of_ne_zero hn]
    refine ⟨fun d hd => ?_, ?_, fun h => absurd h hn, fun _ hhead => ?_⟩
    · exact Nat.digits_lt_base hb (List.mem_reverse.1 hd)
    · rw [List.reverse_reverse, Nat.ofDigits_digits]
    · have hne : Nat.digits b n ≠ [] := fun h => hn (Nat.digits_eq_nil_iff_eq_zero.1 h)
      rw [List.head?_reverse, List.getLast?_eq_some_getLast hne, Option.some_inj] at hhead
      exact Nat.getLast_digit_ne_zero b hn hhead

/-- A binary numeral begins with the digit one. -/
theorem IsNumeral.head_binary (h : IsNumeral 2 n ds) (hn : n ≠ 0) : ds.head? = some 1 := by
  cases ds with
  | nil =>
    have hvalue := h.value
    simp at hvalue
    exact absurd hvalue.symm hn
  | cons d ds =>
    have hlt := h.lt d List.mem_cons_self
    have hne : d ≠ 0 := fun hd => h.head hn (by rw [hd]; rfl)
    rw [List.head?_cons]
    congr 1
    omega

end Numeral
end PosixHw
