import PosixHw.Base.Loop

/-!
# Arrays filled in place

The programs `arrays/task2.c` and `arrays/task3.c`.  The first one fills an array with the numbers
from 1 on, reverses it in place and prints it.  The second one fills a square matrix: each turn of
its loops stores a 0, and a 1 in the cell on the other side of the antidiagonal; on the antidiagonal
both are the same cell.

The size `N` is a parameter, here `n`; the arrays hold anything at first.  A store outside of an
array is undefined, and so is the value of a cell that has not been written.
-/

namespace PosixHw
namespace Arrays

open Loop

/-! ### The array that is reversed -/

namespace Reversed

/-- `arr`, with any numbers in it. -/
abbrev Arr (n : ℕ) : Type := { arr : List ℤ // arr.length = n }

/-- Lines 10–12. -/
def fill (n : ℕ) (arr : List ℤ) : Option (List ℤ) :=
  forTo (fun i arr => put arr i (i + 1)) n arr

/-- Lines 14–18. -/
def swap (n : ℕ) (arr : List ℤ) : Option (List ℤ) :=
  forTo (fun i arr => do
    let temp ← arr[n - 1 - i]?
    let x ← arr[i]?
    let arr ← put arr (n - 1 - i) x
    put arr i temp) (n / 2) arr

/-- Lines 20–22: the numbers that are printed. -/
def print (n : ℕ) (arr : List ℤ) : Option (List ℤ) :=
  forTo (fun i out => (arr[i]?).map fun v => out ++ [v]) n []

/-- `main` -/
def main (n : ℕ) (arr : List ℤ) : Option (List ℤ) := do
  let arr ← fill n arr
  let arr ← swap n arr
  print n arr

/-- After `i` turns, the numbers in the first `i` places have changed with those in the last. -/
def swapped (n i : ℕ) (g : ℕ → ℤ) : ℕ → ℤ := fun p =>
  if p < i ∨ n ≤ p + i then g (n - 1 - p) else g p

/-- A turn changes two numbers. -/
theorem update_swapped {n i : ℕ} {g : ℕ → ℤ} (h : i < n - 1 - i) :
    Function.update (Function.update (swapped n i g) (n - 1 - i) (swapped n i g i)) i
      (swapped n i g (n - 1 - i)) = swapped n (i + 1) g := by
  have hfirst : swapped n i g i = g i := if_neg (by omega)
  have hlast : swapped n i g (n - 1 - i) = g (n - 1 - i) := if_neg (by omega)
  rw [hfirst, hlast]
  funext p
  -- the two places of this turn, and the others
  by_cases hp : p = i
  · subst hp
    rw [Function.update_self]
    exact (if_pos (by omega)).symm
  · rw [Function.update_of_ne hp]
    by_cases hq : p = n - 1 - i
    · subst hq
      rw [Function.update_self, swapped, if_pos (by omega)]
      congr 1
      omega
    · rw [Function.update_of_ne hq, swapped, swapped]
      have hiff : (p < i ∨ n ≤ p + i) ↔ (p < i + 1 ∨ n ≤ p + (i + 1)) := by omega
      simp only [hiff]

theorem fill_eq {n : ℕ} {arr : List ℤ} (h : arr.length = n) :
    fill n arr = some (tabulate n fun i => (i + 1 : ℤ)) := by
  obtain ⟨g, hg⟩ := exists_tabulate arr
  rw [h] at hg
  have hloop : fill n arr
      = some (tabulate n fun p : ℕ => if p < n then (p + 1 : ℤ) else g p) := by
    apply forTo_eq (f := fun i : ℕ => tabulate n fun p : ℕ => if p < i then (p + 1 : ℤ) else g p)
    · simpa using hg.symm
    · intro i hi
      rw [put_tabulate hi]
      congr 2
      funext p
      by_cases hp : p = i
      · subst hp
        simp
      · rw [Function.update_of_ne hp]
        simp only [Nat.lt_succ_iff_lt_or_eq, hp, or_false]
  rw [hloop]
  congr 1
  apply tabulate_congr
  intro i hi
  exact if_pos hi

/-- **The array is reversed**, whatever is in it. -/
theorem swap_eq {n : ℕ} {arr : List ℤ} (h : arr.length = n) : swap n arr = some arr.reverse := by
  obtain ⟨g, hg⟩ := exists_tabulate arr
  rw [h] at hg
  subst hg
  have hloop : swap n (tabulate n g) = some (tabulate n (swapped n (n / 2) g)) := by
    apply forTo_eq (f := fun i => tabulate n (swapped n i g))
    · exact tabulate_congr fun p hp => if_neg (by omega)
    · intro i hi
      -- all four accesses are within the array
      have hi' : i < n := by omega
      have hj' : n - 1 - i < n := by omega
      rw [getElem?_tabulate hj', Option.bind_eq_bind, Option.bind_some, getElem?_tabulate hi',
        Option.bind_eq_bind, Option.bind_some, put_tabulate hj', Option.bind_some,
        put_tabulate hi', update_swapped (by omega)]
  rw [hloop, reverse_tabulate]
  congr 1
  apply tabulate_congr
  intro p hp
  unfold swapped
  split_ifs with hchanged
  · rfl
  · -- the place in the middle
    congr 1
    omega

theorem print_eq {n : ℕ} (g : ℕ → ℤ) : print n (tabulate n g) = some (tabulate n g) := by
  apply forTo_eq (f := fun i => tabulate i g) rfl
  intro i hi
  rw [getElem?_tabulate hi, Option.map_some, tabulate_succ]

/-- **Lines 14–18 reverse any array**, of even or odd length, and so `main` prints the numbers from
the last one to the first. -/
theorem main_reversed {n : ℕ} (arr : Arr n) :
    swap n arr.1 = some arr.1.reverse ∧
      main n arr.1 = some ((List.range n).map fun i : ℕ => (i + 1 : ℤ)).reverse := by
  refine ⟨swap_eq arr.2, ?_⟩
  change main n arr.1 = some (tabulate n fun i => (i + 1 : ℤ)).reverse
  rw [main, fill_eq arr.2, Option.bind_eq_bind, Option.bind_some, swap_eq length_tabulate,
    Option.bind_some, reverse_tabulate, print_eq]

end Reversed

/-! ### The matrix below its antidiagonal -/

namespace Triangle

/-- `matrix`; a cell has no value before it is written. -/
abbrev Matrix := ℕ → ℕ → Option ℤ

/-- `matrix[i][j] = x` -/
def store (n : ℕ) (m : Matrix) (i j : ℕ) (x : ℤ) : Option Matrix :=
  if i < n ∧ j < n then some fun p q => if p = i ∧ q = j then some x else m p q else none

/-- Lines 12–15, for the row `i`: the last value of `j` is `N - 1 - i`. -/
def fillRow (n i : ℕ) (m : Matrix) : Option Matrix :=
  forTo (fun j m => do
    let m ← store n m i j 0
    store n m (n - j - 1) (n - i - 1) 1) (n - 1 - i + 1) m

/-- Lines 11–16. -/
def fill (n : ℕ) (m : Matrix) : Option Matrix := forTo (fillRow n) n m

/-- Lines 19–21, for the row `i`: the numbers that are printed. -/
def printRow (n : ℕ) (m : Matrix) (i : ℕ) : Option (List ℤ) :=
  forTo (fun j out => (m i j).map fun v => out ++ [v]) n []

/-- Lines 18–23: the rows. -/
def print (n : ℕ) (m : Matrix) : Option (List (List ℤ)) :=
  forTo (fun i out => (printRow n m i).map fun row => out ++ [row]) n []

/-- `main` -/
def main (n : ℕ) (m : Matrix) : Option (List (List ℤ)) := (fill n m).bind (print n)

/-- The value of a cell at the end. -/
def value (n p q : ℕ) : ℤ := if p + q + 1 < n then 0 else 1

/-- The cell has been written before the turn `j` of the row `i`: one above the antidiagonal in its
own turn, one below it in the turn of its image. -/
def Written (n i j p q : ℕ) : Prop :=
  if p + q + 1 < n then p < i ∨ p = i ∧ q < j
  else p < n ∧ q < n ∧ (n ≤ q + i ∨ n = q + i + 1 ∧ n ≤ p + j)

instance (n i j p q : ℕ) : Decidable (Written n i j p q) :=
  inferInstanceAs (Decidable
    (if p + q + 1 < n then p < i ∨ p = i ∧ q < j
      else p < n ∧ q < n ∧ (n ≤ q + i ∨ n = q + i + 1 ∧ n ≤ p + j)))

/-- The matrix before this turn. -/
def filled (n : ℕ) (m : Matrix) (i j : ℕ) : Matrix := fun p q =>
  if Written n i j p q then some (value n p q) else m p q

/-- A turn stores a 0 and then, perhaps over it, a 1. -/
theorem store_filled {n i j : ℕ} {m : Matrix} (hi : i < n) (hj : j < n - i) :
    ((store n (filled n m i j) i j 0).bind fun m => store n m (n - j - 1) (n - i - 1) 1)
      = some (filled n m i (j + 1)) := by
  rw [store, if_pos (by omega), Option.bind_some, store, if_pos (by omega)]
  congr 1
  funext p q
  -- the 1 is stored second, and stands where the two cells are one
  by_cases himage : p = n - j - 1 ∧ q = n - i - 1
  · obtain ⟨rfl, rfl⟩ := himage
    have hbelow : ¬ n - j - 1 + (n - i - 1) + 1 < n := by omega
    have hwritten : Written n i (j + 1) (n - j - 1) (n - i - 1) := by
      rw [Written, if_neg hbelow]
      omega
    rw [if_pos ⟨rfl, rfl⟩, filled, if_pos hwritten, value, if_neg hbelow]
  · rw [if_neg himage]
    by_cases hcell : p = i ∧ q = j
    · obtain ⟨rfl, rfl⟩ := hcell
      have habove : p + q + 1 < n := by omega
      have hwritten : Written n p (q + 1) p q := by
        rw [Written, if_pos habove]
        omega
      rw [if_pos ⟨rfl, rfl⟩, filled, if_pos hwritten, value, if_pos habove]
    · have hiff : Written n i j p q ↔ Written n i (j + 1) p q := by
        unfold Written
        split_ifs with habove
        · omega
        · omega
      rw [if_neg hcell, filled, filled]
      simp only [hiff]

theorem fillRow_eq {n i : ℕ} {m : Matrix} (hi : i < n) :
    fillRow n i (filled n m i 0) = some (filled n m (i + 1) 0) := by
  have hloop : fillRow n i (filled n m i 0) = some (filled n m i (n - 1 - i + 1)) :=
    forTo_eq rfl fun j hj => store_filled hi (by omega)
  rw [hloop]
  congr 1
  funext p q
  -- the last turn of a row is on the antidiagonal
  have hiff : Written n i (n - 1 - i + 1) p q ↔ Written n (i + 1) 0 p q := by
    unfold Written
    split_ifs with habove
    · omega
    · omega
  simp only [filled, hiff]

theorem fill_eq (n : ℕ) (m : Matrix) : fill n m = some (filled n m n 0) := by
  apply forTo_eq (f := fun i => filled n m i 0)
  · funext p q
    refine if_neg ?_
    unfold Written
    split_ifs with habove
    · omega
    · omega
  · intro i hi
    exact fillRow_eq hi

theorem filled_inside {n p q : ℕ} {m : Matrix} (hp : p < n) (hq : q < n) :
    filled n m n 0 p q = some (value n p q) := by
  refine if_pos ?_
  unfold Written
  split_ifs with habove
  · omega
  · omega

/-- **What `main` prints**, for a matrix of any size with anything in it: each cell has been
written, and the value is 0 above the antidiagonal, and 1 on it and below it. -/
theorem main_triangle (n : ℕ) (m : Matrix) :
    main n m = some (tabulate n fun i => tabulate n fun j => if i + j + 1 < n then 0 else 1) := by
  rw [main, fill_eq, Option.bind_some]
  apply forTo_eq (f := fun k => tabulate k fun i => tabulate n fun j => value n i j) rfl
  intro i hi
  have hrow : printRow n (filled n m n 0) i = some (tabulate n fun j => value n i j) := by
    apply forTo_eq (f := fun k => tabulate k fun j => value n i j) rfl
    intro j hj
    rw [filled_inside hi hj, Option.map_some, tabulate_succ]
  rw [hrow, Option.map_some, tabulate_succ]

end Triangle
end Arrays
end PosixHw
