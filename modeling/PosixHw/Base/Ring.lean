import Mathlib.Tactic
import Mathlib.Data.Nat.ModEq

/-!
# The live window of a ring buffer

A ring of `n` cells is a function `f : ℕ → α` of which the cells `0, …, n - 1` matter.  Its live
part is the `count` cells that start at `front` and wrap around at `n`.

* `window f n front count` lists the live cells, oldest first;
* `window_push` writes the cell behind the window, `window_pop` takes the cell at its front.
-/

namespace PosixHw
namespace Ring

variable {α : Type*}

/-- The `count` cells of the ring `f` of `n` cells from `front` on, indices modulo `n`. -/
def window (f : ℕ → α) (n front count : ℕ) : List α :=
  (List.range count).map fun i => f ((front + i) % n)

variable (f : ℕ → α) (n front count : ℕ)

theorem window_succ :
    window f n front (count + 1) = window f n front count ++ [f ((front + count) % n)] := by
  simp [window, List.range_succ]

/-- Two indices of one window name the same cell only if they are equal. -/
theorem index_injective {i j : ℕ} (hi : i < n) (hj : j < n)
    (h : (front + i) % n = (front + j) % n) : i = j := by
  have h' : i % n = j % n := Nat.ModEq.add_left_cancel' front h
  rwa [Nat.mod_eq_of_lt hi, Nat.mod_eq_of_lt hj] at h'

/-- Writing the free cell behind the window appends to it; no live cell is overwritten. -/
theorem window_push (h : count < n) (x : α) :
    window (Function.update f ((front + count) % n) x) n front (count + 1)
      = window f n front count ++ [x] := by
  rw [window_succ, Function.update_self]
  congr 1
  refine List.map_congr_left fun i hi => ?_
  have hlt : i < count := List.mem_range.1 hi
  rw [Function.update_of_ne]
  intro heq
  have := index_injective n front (lt_trans hlt h) h heq
  omega

/-- The cell at the front leaves the window. -/
theorem window_pop :
    window f n front (count + 1) = f (front % n) :: window f n ((front + 1) % n) count := by
  simp only [window, List.range_succ_eq_map, List.map_cons, List.map_map, Nat.add_zero]
  congr 1
  refine List.map_congr_left fun i _ => ?_
  simp only [Function.comp_apply, Nat.mod_add_mod]
  congr 2
  omega

end Ring
end PosixHw
