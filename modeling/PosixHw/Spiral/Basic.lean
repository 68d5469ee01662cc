import PosixHw.Base.Lists
import PosixHw.Base.Rings
import PosixHw.Base.Trace

/-!
# The spiral

`main` of `arrays/task4.c`: it fills a matrix with the numbers from 1 on, along its sides and then
inwards, and prints it.  The size `N` is a parameter, here `n`.  The events are the numbers that are
stored, with their cells; a store outside of the matrix is undefined, and so is the value of a cell
that has not been written.

A turn of the outer loop fills one ring (`turn_eq`), and the turns fill one ring after the other
(`loop_eq`); what this order is like is a matter of `Base.Rings`.
-/

namespace PosixHw
namespace Spiral

open Rings

/-- `matrix`; a cell has no value before it is written. -/
abbrev Matrix := Cell → Option ℕ

/-- A number that is stored, with its cell. -/
abbrev Write := Cell × ℕ

/-- The variables of `main`. -/
structure State where
  matrix : Matrix
  value : ℕ
  top : ℤ
  bottom : ℤ
  left : ℤ
  right : ℤ

/-- Lines 8–10, with any values in the matrix. -/
def start (n : ℕ) (m : Matrix) : State := ⟨m, 1, 0, n - 1, 0, n - 1⟩

/-- `matrix[c.row][c.col] = value++` -/
def put (n : ℕ) (c : Cell) (s : State) : Trace Write State := do
  Trace.tell (c, s.value)
  Trace.lift (if c.Inside n then
    some { s with matrix := Function.update s.matrix c (some s.value), value := s.value + 1 }
    else none)

/-- The values of `i` in `for (int i = first; i <= last; i++)`. -/
def upTo (first last : ℤ) : List ℤ :=
  (List.range (last + 1 - first).toNat).map fun t : ℕ => first + t

/-- The values of `i` in `for (int i = first; i >= last; i--)`. -/
def downTo (first last : ℤ) : List ℤ :=
  (List.range (first + 1 - last).toNat).map fun t : ℕ => first - t

/-- The cells of the loops of lines 12–14, 16–18, 20–22 and 24–26. -/
def State.topRow (s : State) : List Cell := (upTo s.left s.right).map fun i => ⟨s.top, i⟩
def State.rightColumn (s : State) : List Cell := (upTo s.top s.bottom).map fun i => ⟨i, s.right⟩
def State.bottomRow (s : State) : List Cell := (downTo s.right s.left).map fun i => ⟨s.bottom, i⟩
def State.leftColumn (s : State) : List Cell := (downTo s.bottom s.top).map fun i => ⟨i, s.left⟩

/-- One of these loops. -/
def fill (n : ℕ) : List Cell → State → Trace Write State
  | [], s => pure s
  | c :: cells, s => put n c s >>= fill n cells

/-- Lines 12–27. -/
def turn (n : ℕ) (s : State) : Trace Write State := do
  let s ← fill n s.topRow s
  let s := { s with top := s.top + 1 }
  let s ← fill n s.rightColumn s
  let s := { s with right := s.right - 1 }
  let s ← fill n s.bottomRow s
  let s := { s with bottom := s.bottom - 1 }
  let s ← fill n s.leftColumn s
  pure { s with left := s.left + 1 }

/-- Lines 11–28, with a bound on the turns. -/
def loop (n : ℕ) : ℕ → State → Trace Write State
  | 0, s => if s.value ≤ n * n then Trace.lift none else pure s
  | turns + 1, s => if s.value ≤ n * n then turn n s >>= loop n turns else pure s

/-- `printf("%d\t", v)` -/
def printCell (v : ℕ) : List Char := Nat.toDigits 10 v ++ ['\t']

/-- Lines 30–33, for the row `i`. -/
def printRow (n : ℕ) (m : Matrix) (i : ℕ) : Option (List Char) :=
  ((List.range n).mapM fun j : ℕ => (m ⟨i, j⟩).map printCell).map fun row => row.flatten ++ ['\n']

/-- Lines 29–34. -/
def print (n : ℕ) (m : Matrix) : Option (List Char) :=
  ((List.range n).mapM (printRow n m)).map List.flatten

/-- `main`, with at most so many turns of the outer loop: what it prints. -/
def main (n turns : ℕ) (m : Matrix) : Trace Write (List Char) := do
  let s ← loop n turns (start n m)
  Trace.lift (print n s.matrix)

/-! ### Storing -/

/-- The matrix after some stores. -/
def assign : Matrix → List Write → Matrix
  | m, [] => m
  | m, w :: ws => assign (Function.update m w.1 (some w.2)) ws

/-- The state after the next numbers have been stored in these cells. -/
def State.after (s : State) (cells : List Cell) : State :=
  { s with matrix := assign s.matrix (cells.zipIdx s.value), value := s.value + cells.length }

section Assign

variable {m : Matrix} {c : Cell} {v x : ℕ} {ws vs : List Write} {cells : List Cell}

theorem assign_append : assign m (ws ++ vs) = assign (assign m ws) vs := by
  induction ws generalizing m with
  | nil => rfl
  | cons w ws ih => exact ih

theorem assign_of_notMem (h : ∀ w ∈ ws, w.1 ≠ c) : assign m ws c = m c := by
  induction ws generalizing m with
  | nil => rfl
  | cons w ws ih =>
    obtain ⟨hw, hws⟩ := List.forall_mem_cons.1 h
    rw [assign, ih hws, Function.update_of_ne (Ne.symm hw)]

/-- A cell that is written once keeps its number. -/
theorem assign_zipIdx (hnodup : cells.Nodup) (hc : c ∈ cells) :
    assign m (cells.zipIdx v) c = some (cells.idxOf c + v) := by
  induction cells generalizing m v with
  | nil => cases hc
  | cons d cells ih =>
    obtain ⟨hd, hcells⟩ := List.nodup_cons.1 hnodup
    rw [List.zipIdx_cons, assign]
    by_cases hdc : c = d
    · subst hdc
      rw [assign_of_notMem, Function.update_self, List.idxOf_cons_self, Nat.zero_add]
      intro w hw hwc
      exact hd (hwc ▸ List.fst_mem_of_mem_zipIdx hw)
    · rw [ih hcells (List.mem_of_ne_of_mem hdc hc), List.idxOf_cons_ne _ (Ne.symm hdc)]
      congr 1
      omega

end Assign

/-! ### The loops -/

section Loops

variable {n l side turns : ℕ} {a : ℤ} {s : State} {cells : List Cell}

/-- **An inner loop** stores the next numbers. -/
theorem fill_eq (h : ∀ c ∈ cells, c.Inside n) :
    fill n cells s = ⟨cells.zipIdx s.value, some (s.after cells)⟩ := by
  induction cells generalizing s with
  | nil => rfl
  | cons c cells ih =>
    obtain ⟨hc, hcells⟩ := List.forall_mem_cons.1 h
    have hput : put n c s = ⟨[(c, s.value)], some (s.after [c])⟩ := by
      rw [put, if_pos hc]
      rfl
    rw [fill, Trace.bind_eq hput (ih hcells)]
    simp only [State.after, assign, List.zipIdx_cons, List.zipIdx_nil, List.length_cons,
      List.length_nil, List.singleton_append, Nat.zero_add, Nat.add_assoc, Nat.add_comm 1]

theorem upTo_eq (l : ℕ) (a : ℤ) {b : ℤ} (hb : b + 1 - a = l) :
    upTo a b = (List.range l).map fun t : ℕ => a + t := by
  rw [upTo, hb, Int.toNat_natCast]

theorem downTo_eq (l : ℕ) (a : ℤ) {b : ℤ} (hb : (a + 1 - b).toNat = l) :
    downTo a b = (List.range l).map fun t : ℕ => a - t := by
  rw [downTo, hb]

/-- The four loops, one after the other. -/
theorem turn_sides {m : Matrix} {v : ℕ} {b : ℤ} {A B C D : List Cell}
    (hA : (upTo a b).map (⟨a, ·⟩) = A) (hB : (upTo (a + 1) b).map (⟨·, b⟩) = B)
    (hC : (downTo (b - 1) a).map (⟨b, ·⟩) = C) (hD : (downTo (b - 1) (a + 1)).map (⟨·, a⟩) = D)
    (h : ∀ c ∈ A ++ B ++ C ++ D, c.Inside n) :
    turn n ⟨m, v, a, b, a, b⟩ = ⟨(A ++ B ++ C ++ D).zipIdx v,
      some ⟨assign m ((A ++ B ++ C ++ D).zipIdx v), v + (A ++ B ++ C ++ D).length, a + 1, b - 1,
        a + 1, b - 1⟩⟩ := by
  simp only [List.forall_mem_append] at h
  obtain ⟨⟨⟨hA', hB'⟩, hC'⟩, hD'⟩ := h
  subst hA hB hC hD
  refine (Trace.bind_eq (fill_eq hA') (Trace.bind_eq (fill_eq hB') (Trace.bind_eq (fill_eq hC')
    (Trace.bind_eq (fill_eq hD') rfl)))).trans ?_
  simp only [State.after, List.zipIdx_append, assign_append, List.length_append, List.append_nil,
    List.append_assoc, Nat.add_assoc]

/-- **A turn** fills a ring, from its top-left corner on. -/
theorem turn_eq (ha : 0 ≤ a) (hl : a + l < n) {m : Matrix} {v : ℕ} :
    turn n ⟨m, v, a, a + l, a, a + l⟩ = ⟨(ring a l).zipIdx v,
      some ⟨assign m ((ring a l).zipIdx v), v + (ring a l).length, a + 1, a + l - 1, a + 1,
        a + l - 1⟩⟩ := by
  have hinside : ∀ c ∈ ring a l, c.Inside n := fun c hc => by
    rw [mem_ring] at hc
    unfold Cell.Inside
    omega
  rw [ring_sides] at hinside ⊢
  refine turn_sides ?_ ?_ ?_ ?_ hinside
  · rw [upTo_eq (l + 1) a (by push_cast; ring), List.map_map]
    rfl
  · rw [upTo_eq l (a + 1) (by ring), List.map_map]
    rfl
  · rw [downTo_eq l (a + l - 1) (by omega), List.map_map]
    rfl
  · rw [downTo_eq (l - 1) (a + l - 1) (by omega), List.map_map]
    rfl

theorem loop_done (turns : ℕ) (h : n * n < s.value) : loop n turns s = pure s := by
  cases turns with
  | zero => exact if_neg (not_le.2 h)
  | succ turns => exact if_neg (not_le.2 h)

theorem loop_succ (h : s.value ≤ n * n) :
    loop n (turns + 1) s = turn n s >>= loop n turns := if_pos h

/-- A turn, and those after it. -/
theorem loop_ring {m : Matrix} {v : ℕ} {ws : List Write} {o : Option State} (ha : 0 ≤ a)
    (hl : a + l < n) (hv : v ≤ n * n)
    (hrest : loop n turns ⟨assign m ((ring a l).zipIdx v), v + (ring a l).length, a + 1, a + l - 1,
      a + 1, a + l - 1⟩ = ⟨ws, o⟩) :
    loop n (turns + 1) ⟨m, v, a, a + l, a, a + l⟩ = ⟨(ring a l).zipIdx v ++ ws, o⟩ := by
  rw [loop_succ hv]
  exact Trace.bind_eq (turn_eq ha hl) hrest

/-- **The outer loop** fills ring after ring; `side` is the side of the square that is left, and
there are as many numbers left as cells. -/
theorem loop_eq (hturns : side ≤ turns) (ha : 0 ≤ a) (hside : a + side ≤ n) {m : Matrix} {v : ℕ}
    (hv : v + side * side = n * n + 1) :
    ∃ s, loop n turns ⟨m, v, a, a + side - 1, a, a + side - 1⟩
      = ⟨(rings side a).flatten.zipIdx v, some s⟩ ∧
        s.matrix = assign m ((rings side a).flatten.zipIdx v) := by
  fun_induction rings side a generalizing turns m v with
  | case1 a => exact ⟨_, loop_done turns (by simp; omega), rfl⟩
  | case2 a =>
    obtain ⟨turns, rfl⟩ : ∃ k, turns = k + 1 := ⟨turns - 1, by omega⟩
    have hcorner : a + ((1 : ℕ) : ℤ) - 1 = a + ((0 : ℕ) : ℤ) := by simp
    have hlen : (ring a 0).length = 1 := length_ring a 0
    have hdone : n * n < v + (ring a 0).length := by omega
    have hloop := loop_ring (m := m) ha (by push_cast at *; omega : a + (0 : ℕ) < n) (by omega)
      (loop_done turns hdone)
    rw [List.append_nil] at hloop
    rw [hcorner, List.flatten_singleton]
    exact ⟨_, hloop, rfl⟩
  | case3 side a ih =>
    obtain ⟨turns, rfl⟩ : ∃ k, turns = k + 1 := ⟨turns - 1, by omega⟩
    have hcorner : a + ((side + 2 : ℕ) : ℤ) - 1 = a + ((side + 1 : ℕ) : ℤ) := by
      push_cast
      ring
    have hinner : a + ((side + 1 : ℕ) : ℤ) - 1 = a + 1 + side - 1 := by
      push_cast
      ring
    have hlen : (ring a (side + 1)).length = 4 * side + 4 := by
      rw [length_ring, perimeter]
      omega
    have hsquare : (side + 2) * (side + 2) = side * side + 4 * side + 4 := by ring
    change v + (side + 2) * (side + 2) = n * n + 1 at hv
    change a + ((side + 2 : ℕ) : ℤ) ≤ n at hside
    obtain ⟨s, hs, hm⟩ := ih (m := assign m ((ring a (side + 1)).zipIdx v))
      (v := v + (ring a (side + 1)).length) (by omega : side ≤ turns) (by omega)
      (by push_cast at *; omega) (by omega)
    rw [← hinner] at hs
    have hloop := loop_ring ha (by push_cast at *; omega) (by omega) hs
    rw [← hcorner, ← List.zipIdx_append, ← List.flatten_cons] at hloop
    refine ⟨s, hloop, ?_⟩
    rw [hm, List.flatten_cons, List.zipIdx_append, assign_append]

end Loops

/-! ### Printing -/

/-- What is printed for a matrix with the numbers `f`. -/
def render (n : ℕ) (f : Cell → ℕ) : List Char := (List.range n).flatMap fun i : ℕ =>
  ((List.range n).flatMap fun j : ℕ => printCell (f ⟨i, j⟩)) ++ ['\n']

/-- **A matrix that is filled** can be printed. -/
theorem print_eq {n : ℕ} {m : Matrix} {f : Cell → ℕ}
    (h : ∀ c : Cell, c.Inside n → m c = some (f c)) : print n m = some (render n f) := by
  have hrow : ∀ i ∈ List.range n, printRow n m i =
      some (((List.range n).flatMap fun j : ℕ => printCell (f ⟨i, j⟩)) ++ ['\n']) := by
    intro i hi
    have hcell : ∀ j ∈ List.range n, (m ⟨i, j⟩).map printCell = some (printCell (f ⟨i, j⟩)) := by
      intro j hj
      rw [List.mem_range] at hi hj
      rw [h ⟨i, j⟩ ⟨by simp, by simpa using hi, by simp, by simpa using hj⟩, Option.map_some]
    rw [printRow, Lists.mapM_eq_some hcell, Option.map_some, List.flatMap_def]
  rw [print, Lists.mapM_eq_some hrow, Option.map_some, render, List.flatMap_def]

/-- **The spiral.** For every size the outer loop ends, and all stores are within the matrix: the
number `i + 1` is stored in the cell `i` of a list that goes through all cells once, each beside the
one before it, and ring after ring, clockwise.  Then the matrix is printed with these numbers. -/
theorem main_spiral (n extra : ℕ) (m : Matrix) :
    ∃ cells, main n (n + extra) m
        = ⟨cells.zipIdx 1, some (render n fun c => cells.idxOf c + 1)⟩ ∧
      (cells.zipIdx 1).map Prod.snd = List.range' 1 (n * n) ∧ IsSpiral n cells := by
  have hspiral := isSpiral_rings n
  obtain ⟨s, hs, hm⟩ := loop_eq (m := m) (v := 1) (Nat.le_add_right n extra) le_rfl
    (by simp : (0 : ℤ) + n ≤ n) (Nat.add_comm _ _)
  rw [zero_add] at hs
  have hprint : print n s.matrix = some (render n fun c => (rings n 0).flatten.idxOf c + 1) := by
    apply print_eq
    intro c hc
    rw [hm, assign_zipIdx hspiral.nodup ((hspiral.mem_iff c).2 hc)]
  refine ⟨(rings n 0).flatten, ?_, ?_, hspiral⟩
  · have hmain : Trace.lift (print n s.matrix) = ⟨([] : List Write), _⟩ :=
      congrArg Trace.lift hprint
    refine (Trace.bind_eq hs hmain).trans ?_
    rw [List.append_nil]
  · rw [List.zipIdx_map_snd, length_rings]

example : (main 3 2 fun _ => none).value = some "1\t2\t3\t\n8\t9\t4\t\n7\t6\t5\t\n".toList := by
  decide +kernel

end Spiral
end PosixHw
