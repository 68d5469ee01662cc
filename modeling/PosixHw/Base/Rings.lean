import Mathlib.Tactic

/-!
# The rings of a square

A square of cells is cut into rings: the cells at the same distance from the border.  `ring a l` is
the ring with the corners `a` and `a + l`, from its top-left corner on, clockwise, and `rings n a`
are those of the square of side `n` with the corner `a`, the outer one first.

`IsSpiral n cells` is the order in which they follow each other: every cell of the square once,
side by side, ring after ring.  `isSpiral_rings` says that `rings n 0` has it.
-/

namespace PosixHw
namespace Rings

/-- A place of the square. -/
structure Cell where
  row : ℤ
  col : ℤ
  deriving DecidableEq

/-- The cell is one of the square of side `n`. -/
def Cell.Inside (n : ℕ) (c : Cell) : Prop := 0 ≤ c.row ∧ c.row < n ∧ 0 ≤ c.col ∧ c.col < n

instance (n : ℕ) (c : Cell) : Decidable (c.Inside n) :=
  inferInstanceAs (Decidable (0 ≤ c.row ∧ c.row < n ∧ 0 ≤ c.col ∧ c.col < n))

/-- The distance to the border of the square. -/
def Cell.depth (n : ℕ) (c : Cell) : ℤ :=
  min (min c.row c.col) (min (n - 1 - c.row) (n - 1 - c.col))

/-- The cells have a side in common. -/
def Cell.Adjacent (c d : Cell) : Prop := |c.row - d.row| + |c.col - d.col| = 1

/-- The next cell, clockwise, in the ring with the corners `a` and `b`. -/
def clockwise (a b : ℤ) (c : Cell) : Cell :=
  if c.row = a ∧ c.col < b then ⟨c.row, c.col + 1⟩
  else if c.col = b ∧ c.row < b then ⟨c.row + 1, c.col⟩
  else if c.row = b ∧ a < c.col then ⟨c.row, c.col - 1⟩
  else ⟨c.row - 1, c.col⟩

/-- The ring `k` of the square of side `n`: its cells are those at the distance `k` from the border,
each of them once, and they follow each other clockwise from the top-left corner on. -/
structure IsRing (n k : ℕ) (r : List Cell) : Prop where
  head : r.head? = some ⟨k, k⟩
  nodup : r.Nodup
  mem_iff : ∀ c, c ∈ r ↔ c.Inside n ∧ c.depth n = k
  turn : r.IsChain fun c d => d = clockwise k (n - 1 - k) c

/-- Every cell of the square once, side by side, one ring after the other. -/
structure IsSpiral (n : ℕ) (cells : List Cell) : Prop where
  nodup : cells.Nodup
  mem_iff : ∀ c, c ∈ cells ↔ c.Inside n
  adjacent : cells.IsChain Cell.Adjacent
  rings : ∃ rs : List (List Cell), cells = rs.flatten ∧ ∀ k r, rs[k]? = some r → IsRing n k r

/-! ### One ring -/

/-- The cell that comes after `t` steps. -/
def cell (a : ℤ) (l t : ℕ) : Cell :=
  if t ≤ l then ⟨a, a + t⟩
  else if t ≤ 2 * l then ⟨a + (t - l), a + l⟩
  else if t ≤ 3 * l then ⟨a + l, a + l - (t - 2 * l)⟩
  else ⟨a + l - (t - 3 * l), a⟩

/-- The number of cells of a ring: one more than a side, two sides, and one less than a side. -/
def perimeter (l : ℕ) : ℕ := l + 1 + l + l + (l - 1)

/-- The ring with the corners `a` and `a + l`. -/
def ring (a : ℤ) (l : ℕ) : List Cell := (List.range (perimeter l)).map (cell a l)

section Ring

variable {a : ℤ} {l t u : ℕ} {c : Cell}

@[simp] theorem length_ring (a : ℤ) (l : ℕ) : (ring a l).length = perimeter l := by
  simp [ring]

theorem perimeter_pos (l : ℕ) : 0 < perimeter l := by
  unfold perimeter
  omega

/-! The four sides; a corner belongs to two of them. -/

theorem cell_top (h : t ≤ l) : cell a l t = ⟨a, a + t⟩ := if_pos h

theorem cell_right (h : l ≤ t) (h' : t ≤ 2 * l) : cell a l t = ⟨a + (t - l), a + l⟩ := by
  unfold cell
  split_ifs
  · obtain rfl : t = l := by omega
    simp
  · rfl

theorem cell_bottom (h : 2 * l ≤ t) (h' : t ≤ 3 * l) :
    cell a l t = ⟨a + l, a + l - (t - 2 * l)⟩ := by
  rcases h.eq_or_lt with rfl | hlt
  · rw [cell_right (by omega) le_rfl, Cell.mk.injEq]
    push_cast
    constructor <;> ring
  · unfold cell
    rw [if_neg (by omega), if_neg (by omega), if_pos h']

theorem cell_left (h : 3 * l ≤ t) : cell a l t = ⟨a + l - (t - 3 * l), a⟩ := by
  rcases h.eq_or_lt with rfl | hlt
  · rw [cell_bottom (by omega) le_rfl, Cell.mk.injEq]
    push_cast
    constructor <;> ring
  · unfold cell
    rw [if_neg (by omega), if_neg (by omega), if_neg (by omega)]

theorem cell_injOn (ht : t < perimeter l) (hu : u < perimeter l) (h : cell a l t = cell a l u) :
    t = u := by
  unfold perimeter at ht hu
  unfold cell at h
  split_ifs at h <;> rw [Cell.mk.injEq] at h <;> omega

theorem nodup_ring (a : ℤ) (l : ℕ) : (ring a l).Nodup := by
  apply List.Nodup.map_on _ List.nodup_range
  intro t ht u hu h
  exact cell_injOn (List.mem_range.1 ht) (List.mem_range.1 hu) h

/-- The cells of a ring are those on the four sides. -/
theorem mem_ring : c ∈ ring a l ↔ (a ≤ c.row ∧ c.row ≤ a + l ∧ a ≤ c.col ∧ c.col ≤ a + l) ∧
    (c.row = a ∨ c.row = a + l ∨ c.col = a ∨ c.col = a + l) := by
  obtain ⟨i, j⟩ := c
  simp only [ring, List.mem_map, List.mem_range]
  constructor
  · rintro ⟨t, ht, h⟩
    unfold perimeter at ht
    unfold cell at h
    split_ifs at h <;> rw [Cell.mk.injEq] at h <;> omega
  · rintro ⟨⟨hi, hi', hj, hj'⟩, hside⟩
    unfold perimeter
    by_cases htop : i = a
    · refine ⟨(j - a).toNat, by omega, ?_⟩
      rw [cell_top (by omega), Cell.mk.injEq]
      omega
    by_cases hright : j = a + l
    · refine ⟨l + (i - a).toNat, by omega, ?_⟩
      rw [cell_right (by omega) (by omega), Cell.mk.injEq]
      omega
    by_cases hbottom : i = a + l
    · refine ⟨2 * l + (a + l - j).toNat, by omega, ?_⟩
      rw [cell_bottom (by omega) (by omega), Cell.mk.injEq]
      omega
    · refine ⟨3 * l + (a + l - i).toNat, by omega, ?_⟩
      rw [cell_left (by omega), Cell.mk.injEq]
      omega

/-! The next cell on each side. -/

theorem clockwise_top {b j : ℤ} (hj : j < b) : clockwise a b ⟨a, j⟩ = ⟨a, j + 1⟩ :=
  if_pos ⟨rfl, hj⟩

theorem clockwise_right {b i : ℤ} (hi : i < b) : clockwise a b ⟨i, b⟩ = ⟨i + 1, b⟩ := by
  unfold clockwise
  rw [if_neg (fun h => lt_irrefl b h.2), if_pos ⟨rfl, hi⟩]

theorem clockwise_bottom {b j : ℤ} (hb : a < b) (hj : a < j) :
    clockwise a b ⟨b, j⟩ = ⟨b, j - 1⟩ := by
  unfold clockwise
  rw [if_neg (fun h => hb.ne' h.1), if_neg (fun h => lt_irrefl b h.2), if_pos ⟨rfl, hj⟩]

theorem clockwise_left {b i : ℤ} (hi : a < i) (hi' : i ≤ b) :
    clockwise a b ⟨i, a⟩ = ⟨i - 1, a⟩ := by
  unfold clockwise
  rw [if_neg (fun h => hi.ne' h.1), if_neg (fun h => (hi.trans_le hi').ne h.1),
    if_neg (fun h => lt_irrefl a h.2)]

/-- **The four sides**: the top row, the right column below it, the bottom row before that, and what
is left of the left column. -/
theorem ring_sides (a : ℤ) (l : ℕ) : ring a l =
    (List.range (l + 1)).map (fun t : ℕ => ⟨a, a + t⟩) ++
    (List.range l).map (fun t : ℕ => ⟨a + 1 + t, a + l⟩) ++
    (List.range l).map (fun t : ℕ => ⟨a + l, a + l - 1 - t⟩) ++
    (List.range (l - 1)).map (fun t : ℕ => ⟨a + l - 1 - t, a⟩) := by
  rw [ring, perimeter, List.range_add, List.range_add, List.range_add, List.map_append,
    List.map_append, List.map_append, List.map_map, List.map_map, List.map_map]
  congr 1
  · congr 1
    · congr 1
      · refine List.map_congr_left fun t ht => cell_top ?_
        exact Nat.le_of_lt_succ (List.mem_range.1 ht)
      · refine List.map_congr_left fun t ht => ?_
        have hlt := List.mem_range.1 ht
        rw [Function.comp_apply, cell_right (by omega) (by omega), Cell.mk.injEq]
        omega
    · refine List.map_congr_left fun t ht => ?_
      have hlt := List.mem_range.1 ht
      rw [Function.comp_apply, cell_bottom (by omega) (by omega), Cell.mk.injEq]
      omega
  · refine List.map_congr_left fun t ht => ?_
    have hlt := List.mem_range.1 ht
    rw [Function.comp_apply, cell_left (by omega), Cell.mk.injEq]
    omega

/-- **The steps are clockwise.** -/
theorem cell_succ (ht : t + 1 < perimeter l) :
    cell a l (t + 1) = clockwise a (a + l) (cell a l t) := by
  unfold perimeter at ht
  by_cases htop : t < l
  · rw [cell_top htop, cell_top htop.le, clockwise_top (by omega), Cell.mk.injEq]
    omega
  by_cases hright : t < 2 * l
  · rw [cell_right (by omega) hright, cell_right (by omega) hright.le,
      clockwise_right (by omega), Cell.mk.injEq]
    omega
  by_cases hbottom : t < 3 * l
  · rw [cell_bottom (by omega) hbottom, cell_bottom (by omega) hbottom.le,
      clockwise_bottom (by omega) (by omega), Cell.mk.injEq]
    omega
  · rw [cell_left (by omega), cell_left (by omega), clockwise_left (by omega) (by omega),
      Cell.mk.injEq]
    omega

/-- What follows clockwise is adjacent. -/
theorem adjacent_clockwise (a b : ℤ) (c : Cell) : c.Adjacent (clockwise a b c) := by
  unfold Cell.Adjacent clockwise
  split_ifs <;> simp

theorem isChain_ring (a : ℤ) (l : ℕ) :
    (ring a l).IsChain fun c d => d = clockwise a (a + l) c := by
  rw [ring, List.isChain_map, List.isChain_range]
  intro t ht
  exact cell_succ (by omega)

theorem head_ring (a : ℤ) (l : ℕ) : (ring a l).head? = some ⟨a, a⟩ := by
  obtain ⟨n, hn⟩ := Nat.exists_eq_succ_of_ne_zero (perimeter_pos l).ne'
  rw [ring, hn, List.range_succ_eq_map, List.map_cons, List.head?_cons, cell_top (Nat.zero_le l)]
  simp

/-- A ring ends below its start. -/
theorem getLast_ring (a : ℤ) (l : ℕ) : (ring a (l + 1)).getLast? = some ⟨a + 1, a⟩ := by
  have hn : perimeter (l + 1) = 4 * l + 3 + 1 := by
    unfold perimeter
    omega
  rw [ring, hn, List.range_succ, List.map_append, List.map_singleton, List.getLast?_concat]
  rw [cell_left (by omega), Option.some_inj, Cell.mk.injEq]
  omega

end Ring

/-! ### All rings -/

/-- The rings of the square of side `n` with the corner `a`. -/
def rings : ℕ → ℤ → List (List Cell)
  | 0, _ => []
  | 1, a => [ring a 0]
  | n + 2, a => ring a (n + 1) :: rings n (a + 1)

variable {n k : ℕ} {a : ℤ} {c : Cell} {r : List Cell}

theorem rings_add_two (n : ℕ) (a : ℤ) :
    (rings (n + 2) a).flatten = ring a (n + 1) ++ (rings n (a + 1)).flatten := rfl

theorem length_rings (n : ℕ) (a : ℤ) : (rings n a).flatten.length = n * n := by
  fun_induction rings n a with
  | case1 a => rfl
  | case2 a => rfl
  | case3 n a ih =>
    rw [List.flatten_cons, List.length_append, ih, length_ring, perimeter]
    simp only [Nat.succ_eq_add_one, Nat.add_sub_cancel]
    ring

/-- The rings fill the square. -/
theorem mem_rings : c ∈ (rings n a).flatten ↔
    a ≤ c.row ∧ c.row < a + n ∧ a ≤ c.col ∧ c.col < a + n := by
  fun_induction rings n a with
  | case1 a => simp
  | case2 a =>
    simp [mem_ring]
    omega
  | case3 n a ih =>
    rw [List.flatten_cons, List.mem_append, ih, mem_ring]
    push_cast
    omega

theorem nodup_rings (n : ℕ) (a : ℤ) : (rings n a).flatten.Nodup := by
  fun_induction rings n a with
  | case1 a => exact List.nodup_nil
  | case2 a => simpa using nodup_ring a 0
  | case3 n a ih =>
    rw [List.flatten_cons]
    refine List.nodup_append.2 ⟨nodup_ring a (n + 1), ih, ?_⟩
    -- the inner square has no cell on the sides of the ring
    rintro c hc d hd rfl
    rw [mem_ring] at hc
    rw [mem_rings] at hd
    push_cast at hc
    omega

theorem head_rings (n : ℕ) (a : ℤ) : (rings (n + 1) a).flatten.head? = some ⟨a, a⟩ := by
  cases n with
  | zero => simpa [rings] using head_ring a 0
  | succ n =>
    rw [rings_add_two, List.head?_append, head_ring]
    rfl

/-- From one cell to the next there is a side in common, also where a ring ends. -/
theorem isChain_rings (n : ℕ) (a : ℤ) : (rings n a).flatten.IsChain Cell.Adjacent := by
  have hring : ∀ (a : ℤ) (l : ℕ), (ring a l).IsChain Cell.Adjacent := fun a l =>
    (isChain_ring a l).imp fun c d h => by
      rw [h]
      exact adjacent_clockwise a (a + l) c
  fun_induction rings n a with
  | case1 a => exact List.isChain_nil
  | case2 a => simpa using hring a 0
  | case3 n a ih =>
    rw [List.flatten_cons]
    refine (hring a (n + 1)).append ih ?_
    intro c hc d hd
    rw [getLast_ring] at hc
    cases hc
    cases n with
    | zero => cases hd
    | succ n =>
      rw [head_rings] at hd
      cases hd
      simp [Cell.Adjacent]

/-- The ring `k` has the corners `a + k` and `a + n - 1 - k`. -/
theorem getElem?_rings (h : (rings n a)[k]? = some r) :
    ∃ l, n = 2 * k + l + 1 ∧ r = ring (a + k) l := by
  fun_induction rings n a generalizing k with
  | case1 a => cases h
  | case2 a =>
    cases k with
    | zero =>
      cases h
      exact ⟨0, rfl, by simp⟩
    | succ k => cases h
  | case3 n a ih =>
    cases k with
    | zero =>
      cases h
      exact ⟨n + 1, by omega, by simp⟩
    | succ k =>
      obtain ⟨l, hn, hr⟩ := ih h
      refine ⟨l, by omega, ?_⟩
      rw [hr, Nat.cast_succ, add_assoc, add_comm 1]

theorem isRing_rings (h : (rings n 0)[k]? = some r) : IsRing n k r := by
  obtain ⟨l, rfl, rfl⟩ := getElem?_rings h
  have hcorner : ((2 * k + l + 1 : ℕ) : ℤ) - 1 - k = k + l := by
    push_cast
    ring
  rw [zero_add]
  refine ⟨head_ring _ _, nodup_ring _ _, fun c => ?_, ?_⟩
  · rw [mem_ring, Cell.Inside, Cell.depth]
    push_cast
    omega
  · rw [hcorner]
    exact isChain_ring _ _

/-- **The rings, one after the other.** -/
theorem isSpiral_rings (n : ℕ) : IsSpiral n (rings n 0).flatten where
  nodup := nodup_rings n 0
  mem_iff c := by rw [mem_rings, Cell.Inside, zero_add]
  adjacent := isChain_rings n 0
  rings := ⟨rings n 0, rfl, fun _ _ h => isRing_rings h⟩

end Rings
end PosixHw
