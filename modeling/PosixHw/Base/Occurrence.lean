import Mathlib.Tactic

/-!
# Where a list occurs in another one

`OccursAt w s i` says that `s` goes on with `w` from the place `i` on, and `IsFirst w s i` that `i`
is the first such place.  The empty list occurs everywhere.

* `agree s w` is the number of places from the start on at which two lists have the same elements;
  a comparison stops there, and `w` is a prefix of `s` if it stops at the end of `w`;
* `first w s` looks for `w` at one place after the other; `first_eq_some_iff` and
  `first_eq_none_iff` say that it finds the first place, and fails only if there is none.
-/

namespace PosixHw
namespace Occurrence

variable {α : Type*} {w s s' : List α} {a : α} {i j : ℕ}

/-- `w` occurs in `s` at the place `i`. -/
def OccursAt (w s : List α) (i : ℕ) : Prop := w <+: s.drop i

/-- `i` is the first place at which `w` occurs in `s`. -/
def IsFirst (w s : List α) (i : ℕ) : Prop := OccursAt w s i ∧ ∀ j < i, ¬ OccursAt w s j

theorem occursAt_nil : OccursAt w [] i ↔ w = [] := by
  rw [OccursAt, List.drop_nil, List.prefix_nil]

/-- What occurs in a list occurs at the same place in each that begins with it. -/
theorem OccursAt.extend (h : OccursAt w s i) (hs : s <+: s') : OccursAt w s' i :=
  List.IsPrefix.trans h (hs.drop i)

/-- The places at which a list occurs are those that make it a contiguous part. -/
theorem exists_occursAt_iff : (∃ i, OccursAt w s i) ↔ w <:+: s := by
  rw [List.infix_iff_prefix_suffix]
  constructor
  · rintro ⟨i, hi⟩
    exact ⟨s.drop i, hi, List.drop_suffix i s⟩
  · rintro ⟨t, hw, ht⟩
    refine ⟨s.length - t.length, ?_⟩
    rw [OccursAt, ← List.suffix_iff_eq_drop.1 ht]
    exact hw

theorem IsFirst.le (h : IsFirst w s i) (hj : OccursAt w s j) : i ≤ j :=
  Nat.le_of_not_lt fun hlt => h.2 j hlt hj

/-- A list occurs first at the end, or before it. -/
theorem IsFirst.le_length (h : IsFirst w s i) : i ≤ s.length := by
  by_contra hlt
  rw [not_le] at hlt
  have hw : w = [] := by
    rw [← List.prefix_nil, ← List.drop_eq_nil_of_le hlt.le]
    exact h.1
  refine h.2 s.length hlt ?_
  rw [hw]
  exact List.nil_prefix

theorem IsFirst.unique (hi : IsFirst w s i) (hj : IsFirst w s j) : i = j :=
  Nat.le_antisymm (hi.le hj.1) (hj.le hi.1)

/-- What occurs has a first place. -/
theorem exists_isFirst (h : w <:+: s) : ∃ i, IsFirst w s i := by
  classical
  have hex := exists_occursAt_iff.2 h
  exact ⟨Nat.find hex, Nat.find_spec hex, fun j hj => Nat.find_min hex hj⟩

theorem isFirst_zero : IsFirst w s 0 ↔ w <+: s :=
  and_iff_left fun j hj => absurd hj (Nat.not_lt_zero j)

/-- The first place is behind the head exactly if the head is not one. -/
theorem isFirst_cons_succ :
    IsFirst w (a :: s) (i + 1) ↔ ¬ w <+: a :: s ∧ IsFirst w s i := by
  constructor
  · rintro ⟨hi, hmin⟩
    exact ⟨hmin 0 (Nat.succ_pos i), hi, fun j hj => hmin (j + 1) (Nat.succ_lt_succ hj)⟩
  · rintro ⟨hhead, hi, hmin⟩
    refine ⟨hi, fun j hj => ?_⟩
    cases j with
    | zero => exact hhead
    | succ j => exact hmin j (Nat.lt_of_succ_lt_succ hj)

variable [DecidableEq α]

/-! ### Comparing from the start on -/

/-- The length of the longest common prefix. -/
def agree : List α → List α → ℕ
  | a :: s, b :: w => if a = b then agree s w + 1 else 0
  | _, _ => 0

@[simp] theorem agree_nil_left (w : List α) : agree [] w = 0 := by cases w <;> rfl

@[simp] theorem agree_nil_right (s : List α) : agree s [] = 0 := by cases s <;> rfl

theorem agree_cons_self (a : α) (s w : List α) : agree (a :: s) (a :: w) = agree s w + 1 := by
  rw [agree, if_pos rfl]

theorem agree_cons_of_ne {b : α} (h : a ≠ b) (s w : List α) : agree (a :: s) (b :: w) = 0 := by
  rw [agree, if_neg h]

theorem agree_le_right (s w : List α) : agree s w ≤ w.length := by
  induction s generalizing w with
  | nil => simp
  | cons a s ih =>
    cases w with
    | nil => simp
    | cons b w =>
      rw [agree, List.length_cons]
      split_ifs
      · exact Nat.succ_le_succ (ih w)
      · exact Nat.zero_le _

/-- The comparison reaches the end of a prefix, and of nothing else. -/
theorem agree_eq_length_iff : agree s w = w.length ↔ w <+: s := by
  induction s generalizing w with
  | nil =>
    rw [agree_nil_left, List.prefix_nil, eq_comm, List.length_eq_zero_iff]
  | cons a s ih =>
    cases w with
    | nil => simp
    | cons b w =>
      rw [List.cons_prefix_cons, List.length_cons, ← ih]
      by_cases hab : a = b
      · subst hab
        rw [agree_cons_self, Nat.succ_inj, and_iff_right rfl]
      · rw [agree_cons_of_ne hab]
        exact iff_of_false (Nat.succ_ne_zero _).symm fun h => hab h.1.symm

/-! ### The search -/

/-- The first place at which `w` occurs. -/
def first (w : List α) : List α → Option ℕ
  | [] => if w = [] then some 0 else none
  | a :: s => if w <+: a :: s then some 0 else (first w s).map (· + 1)

theorem first_nil_of_ne_nil (h : w ≠ []) : first w [] = none := if_neg h

theorem first_of_isPrefix (h : w <+: s) : first w s = some 0 := by
  cases s with
  | nil => exact if_pos (List.prefix_nil.1 h)
  | cons a s => exact if_pos h

theorem first_cons_of_not_isPrefix (h : ¬ w <+: a :: s) :
    first w (a :: s) = (first w s).map (· + 1) := if_neg h

/-- **The search finds the first place.** -/
theorem first_eq_some_iff : first w s = some i ↔ IsFirst w s i := by
  induction s generalizing i with
  | nil =>
    rw [first]
    cases i with
    | zero =>
      rw [isFirst_zero, List.prefix_nil]
      split_ifs with hw <;> simp [hw]
    | succ i =>
      have hne : ¬ IsFirst w [] (i + 1) := by
        rintro ⟨hi, hmin⟩
        exact hmin 0 (Nat.succ_pos i) (occursAt_nil.2 (occursAt_nil.1 hi))
      split_ifs <;> simp [hne]
  | cons a s ih =>
    by_cases hw : w <+: a :: s
    · rw [first_of_isPrefix hw, Option.some_inj]
      constructor
      · rintro rfl
        exact isFirst_zero.2 hw
      · exact fun hi => (isFirst_zero.2 hw).unique hi
    · rw [first_cons_of_not_isPrefix hw, Option.map_eq_some_iff]
      cases i with
      | zero => simp [isFirst_zero, hw]
      | succ i =>
        rw [isFirst_cons_succ, and_iff_right hw, ← ih]
        simp

/-- **The search fails** only if there is no place. -/
theorem first_eq_none_iff : first w s = none ↔ ¬ w <:+: s := by
  induction s with
  | nil =>
    rw [first, List.infix_nil]
    split_ifs with hw <;> simp [hw]
  | cons a s ih =>
    rw [List.infix_cons_iff, not_or]
    by_cases hw : w <+: a :: s
    · simp [first_of_isPrefix hw, hw]
    · rw [first_cons_of_not_isPrefix hw, Option.map_eq_none_iff, ih, and_iff_right hw]

end Occurrence
end PosixHw
