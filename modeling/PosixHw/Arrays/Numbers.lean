import PosixHw.Base.Loop
import PosixHw.Base.Scanf

/-!
# A square of numbers

The program `arrays/task1.c`: reads the size of a matrix and prints the numbers from 1 on in its
rows.  The numbers are of type `int`, and `value++` is evaluated before each `printf`.  If nothing
can be read, the size is what the variable happens to hold.

`main_numbers` says what is printed, and for which sizes `value` overflows.
-/

namespace PosixHw
namespace Arrays
namespace Numbers

open Loop Scanf

/-- The largest `int`. -/
def intMax : ℤ := 2 ^ 31 - 1

/-- What is printed. -/
inductive Print
  | prompt
  | number (value : ℤ)
  | newline
  deriving DecidableEq

/-- `value`, and what has been printed. -/
abbrev State : Type := ℤ × List Print

/-- `printf("%d ", value++)` -/
def printNumber (s : State) : Option State :=
  if s.1 < intMax then some (s.1 + 1, s.2 ++ [.number s.1]) else none

/-- A row. -/
def printRow (n : ℕ) (s : State) : Option State :=
  (forTo (fun _ => printNumber) n s).map fun s => (s.1, s.2 ++ [.newline])

/-- `print_matrix`; for a negative size the loop ends at once. -/
def printMatrix (size : ℤ) (out : List Print) : Option (List Print) :=
  (forTo (fun _ => printRow size.toNat) size.toNat (1, out)).map Prod.snd

/-- `N` after the call of `scanf`, if it is `old` before. -/
def size (old : ℤ) (input : List UInt8) : ℤ := (scanInt input).1.getD old

/-- `main` -/
def main (old : ℤ) (input : List UInt8) : Option (List Print) :=
  printMatrix (size old input) [.prompt]

/-- The row that begins with `value`. -/
def row (n : ℕ) (value : ℤ) : List Print :=
  (List.range n).map (fun j : ℕ => Print.number (value + j)) ++ [.newline]

/-- The first `k` rows. -/
def rows (n k : ℕ) : List Print := (List.range k).flatMap fun i : ℕ => row n (i * n + 1)

theorem row_eq {n : ℕ} {value : ℤ} {out : List Print} (h : value + n ≤ intMax) :
    printRow n (value, out) = some (value + n, out ++ row n value) := by
  have hloop : forTo (fun _ => printNumber) n (value, out)
      = some (value + n, out ++ (List.range n).map fun j : ℕ => Print.number (value + j)) := by
    apply forTo_eq (f := fun j : ℕ => ((value + j,
      out ++ (List.range j).map fun j : ℕ => Print.number (value + j)) : State))
    · simp
    · intro j hj
      have hlt : value + j < intMax := by omega
      simp only [printNumber, if_pos hlt, List.range_succ, List.map_append]
      simp [add_assoc]
  rw [printRow, hloop, row]
  simp

theorem rows_succ (n k : ℕ) : rows n (k + 1) = rows n k ++ row n (k * n + 1) := by
  simp [rows, List.range_succ]

/-- The rows are printed if the number after the last one is an `int`. -/
theorem matrix_eq {n : ℕ} {out : List Print} (h : (n * n : ℤ) < intMax) :
    forTo (fun _ => printRow n) n (1, out) = some ((n * n + 1 : ℤ), out ++ rows n n) := by
  apply forTo_eq (f := fun i : ℕ => ((i * n + 1, out ++ rows n i) : State))
  · simp [rows]
  · intro i hi
    -- no row before the last one goes beyond it
    have hle : ((i : ℤ) + 1) * n ≤ n * n := by
      apply mul_le_mul_of_nonneg_right _ (Int.natCast_nonneg n)
      exact_mod_cast hi
    have hle' : (i * n + 1 : ℤ) + n ≤ intMax := by linarith
    rw [row_eq hle', rows_succ, List.append_assoc]
    congr 2
    push_cast
    ring

/-- What is known of `value` after a row that could be printed, and after all rows. -/
theorem value_printRow {n : ℕ} {s t : State} (hs : s.1 ≤ intMax) (h : printRow n s = some t) :
    t.1 = s.1 + n ∧ t.1 ≤ intMax := by
  obtain ⟨u, hu, rfl⟩ := Option.map_eq_some_iff.1 h
  apply forTo_invariant (I := fun j u => u.1 = s.1 + (j : ℤ) ∧ u.1 ≤ intMax) ⟨by simp, hs⟩ _ hu
  rintro j - v w ⟨hv, -⟩ hw
  -- the number is printed if it can be incremented
  unfold printNumber at hw
  split_ifs at hw with hlt
  cases hw
  refine ⟨?_, Int.add_one_le_of_lt hlt⟩
  push_cast
  rw [hv, add_assoc]

theorem value_matrix {n : ℕ} {out : List Print} {t : State}
    (h : forTo (fun _ => printRow n) n (1, out) = some t) : t.1 = n * n + 1 ∧ t.1 ≤ intMax := by
  have hone : (1 : ℤ) ≤ intMax := by decide
  apply forTo_invariant (I := fun i u => u.1 = (i : ℤ) * n + 1 ∧ u.1 ≤ intMax) ⟨by simp, hone⟩ _ h
  rintro i - u v ⟨hu, hle⟩ hv
  obtain ⟨hvalue, hmax⟩ := value_printRow hle hv
  refine ⟨?_, hmax⟩
  push_cast
  rw [hvalue, hu]
  ring

/-- The numbers among what is printed. -/
def Print.number? : Print → Option ℤ
  | .number value => some value
  | .prompt | .newline => none

theorem numbers_row (n : ℕ) (value : ℤ) :
    (row n value).filterMap Print.number? = (List.range n).map fun j : ℕ => value + j := by
  simp [row, List.filterMap_append, List.filterMap_map, Function.comp_def, Print.number?]

/-- The rows are the numbers from 1 on. -/
theorem numbers_rows (n k : ℕ) :
    (rows n k).filterMap Print.number? = (List.range (k * n)).map fun v : ℕ => (v + 1 : ℤ) := by
  induction k with
  | zero => simp [rows]
  | succ k ih =>
    rw [rows_succ, List.filterMap_append, ih, numbers_row, Nat.succ_mul, List.range_add,
      List.map_append, List.map_map]
    congr 2
    funext j
    simp only [Function.comp_apply]
    push_cast
    ring

/-- **What `main` prints**, for any input and any value of `N`: for a size of at most 46340 the
rows, which hold the numbers from 1 to the square of the size in this order; for a larger one
`value` overflows. -/
theorem main_numbers (old : ℤ) (input : List UInt8) :
    (main old input = none ↔ 46340 < size old input) ∧
      ∀ out, main old input = some out →
        out = .prompt :: rows (size old input).toNat (size old input).toNat ∧
          out.filterMap Print.number?
            = (List.range ((size old input).toNat * (size old input).toNat)).map
                fun v : ℕ => (v + 1 : ℤ) := by
  generalize hsize : size old input = N
  rw [main, hsize, printMatrix]
  have hiff : (N.toNat * N.toNat : ℤ) < intMax ↔ ¬ 46340 < N := by
    rcases le_total 0 N with hpos | hneg
    · rw [Int.toNat_of_nonneg hpos, intMax, not_lt]
      constructor
      · intro h
        nlinarith
      · intro h
        nlinarith
    · rw [Int.toNat_of_nonpos hneg]
      refine iff_of_true (by decide) ?_
      omega
  constructor
  · rw [Option.map_eq_none_iff]
    constructor
    · intro hnone
      by_contra hnot
      rw [matrix_eq (hiff.2 hnot)] at hnone
      cases hnone
    · intro hlarge
      rw [Option.eq_none_iff_forall_ne_some]
      intro t ht
      obtain ⟨hvalue, hle⟩ := value_matrix ht
      rw [hvalue] at hle
      exact hiff.1 (Int.lt_of_add_one_le hle) hlarge
  · intro out hout
    obtain ⟨t, ht, rfl⟩ := Option.map_eq_some_iff.1 hout
    obtain ⟨hvalue, hle⟩ := value_matrix ht
    rw [hvalue] at hle
    rw [matrix_eq (Int.lt_of_add_one_le hle)] at ht
    cases ht
    refine ⟨rfl, ?_⟩
    rw [List.filterMap_append, numbers_rows]
    rfl

end Numbers
end Arrays
end PosixHw
