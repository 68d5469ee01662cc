import Mathlib.Tactic
import Mathlib.Data.List.Perm.Basic

/-!
# Lists: what the elements hold, and erasing by a move

`l.filterMap f` lists what the elements of `l` hold, where `f` says what one of them holds.  The
lemmas follow it through the replacement of one element: `filterMap_set_of_eq` when it goes on
holding the same, `filterMap_set_none` when it lets go.  `bind_set` and `bind_concat` follow what is
held at each place, `getElem?_set_eq_some` and `getElem?_concat_eq_some` say what stands there.

`swapErase p l` erases the first element with `p` and moves the last element into its place.
`mapM_eq_some` is for a loop whose calls all return.
-/

namespace PosixHw
namespace Lists

variable {α β : Type*} {f : α → Option β} {l : List α} {i j : ℕ} {a b : α} {x : β}

theorem exists_cons_cons (h : 2 ≤ l.length) : ∃ a b t, l = a :: b :: t := by
  obtain ⟨a, t, rfl⟩ := List.exists_cons_of_length_pos (Nat.lt_of_lt_of_le Nat.two_pos h)
  rw [List.length_cons] at h
  obtain ⟨b, t, rfl⟩ := List.exists_cons_of_length_pos (Nat.le_of_succ_le_succ h)
  exact ⟨a, b, t, rfl⟩

theorem mapM_eq_some {g : α → β} (h : ∀ a ∈ l, f a = some (g a)) : l.mapM f = some (l.map g) := by
  induction l with
  | nil => rfl
  | cons a l ih =>
    obtain ⟨ha, hl⟩ := List.forall_mem_cons.1 h
    rw [List.mapM_cons, ha, ih hl]
    rfl

theorem filterMap_set_of_eq (h : l[i]? = some a) (hf : f b = f a) :
    (l.set i b).filterMap f = l.filterMap f := by
  induction l generalizing i with
  | nil => cases h
  | cons c l ih =>
    cases i with
    | zero =>
      rw [List.getElem?_cons_zero, Option.some.injEq] at h
      subst h
      rw [List.set_cons_zero, List.filterMap_cons, List.filterMap_cons, hf]
    | succ i =>
      rw [List.getElem?_cons_succ] at h
      rw [List.set_cons_succ, List.filterMap_cons, List.filterMap_cons, ih h]

/-- A sum over the elements, when one of them is replaced. -/
theorem sum_map_set {w : α → ℕ} (h : l[i]? = some a) :
    ((l.set i b).map w).sum + w a = (l.map w).sum + w b := by
  induction l generalizing i with
  | nil => cases h
  | cons c l ih =>
    cases i with
    | zero =>
      rw [List.getElem?_cons_zero, Option.some.injEq] at h
      subst h
      simp only [List.set_cons_zero, List.map_cons, List.sum_cons]
      omega
    | succ i =>
      rw [List.getElem?_cons_succ] at h
      have hl := ih h
      simp only [List.set_cons_succ, List.map_cons, List.sum_cons]
      omega

/-- The element `i` held `x` and lets go of it. -/
theorem filterMap_set_none (h : l[i]? = some a) (ha : f a = some x) (hb : f b = none) :
    (l.filterMap f).Perm (x :: (l.set i b).filterMap f) := by
  induction l generalizing i with
  | nil => cases h
  | cons c l ih =>
    cases i with
    | zero =>
      rw [List.getElem?_cons_zero, Option.some.injEq] at h
      subst h
      rw [List.set_cons_zero, List.filterMap_cons_some ha, List.filterMap_cons_none hb]
    | succ i =>
      rw [List.getElem?_cons_succ] at h
      rw [List.set_cons_succ]
      cases hc : f c with
      | none =>
        rw [List.filterMap_cons_none hc, List.filterMap_cons_none hc]
        exact ih h
      | some y =>
        rw [List.filterMap_cons_some hc, List.filterMap_cons_some hc]
        exact ((ih h).cons y).trans (List.Perm.swap x y _)

/-- The element `i`, which is not counted, is replaced. -/
theorem countP_set_of_not {p : α → Bool} (h : l[i]? = some a) (ha : p a = false) :
    (l.set i b).countP p = l.countP p + [b].countP p := by
  obtain ⟨hlt, he⟩ := List.getElem?_eq_some_iff.1 h
  rw [List.countP_set hlt, he, ha, List.countP_singleton]
  rfl

theorem bind_set (h : l[i]? = some a) :
    (fun j => (l.set i b)[j]?.bind f) = Function.update (fun j => l[j]?.bind f) i (f b) := by
  obtain ⟨hlt, -⟩ := List.getElem?_eq_some_iff.1 h
  funext j
  by_cases hj : j = i
  · subst hj
    rw [Function.update_self, List.getElem?_set_self hlt, Option.bind_some]
  · rw [Function.update_of_ne hj, List.getElem?_set_ne (Ne.symm hj)]

theorem bind_concat :
    (fun j => (l ++ [b])[j]?.bind f) = Function.update (fun j => l[j]?.bind f) l.length (f b) := by
  funext j
  by_cases hj : j = l.length
  · subst hj
    rw [Function.update_self, List.getElem?_concat_length, Option.bind_some]
  · rw [Function.update_of_ne hj]
    rcases lt_or_gt_of_ne hj with hlt | hgt
    · rw [List.getElem?_append_left hlt]
    · rw [List.getElem?_eq_none (by simpa using hgt), List.getElem?_eq_none hgt.le]

/-- What stands in a list with a new last element. -/
theorem getElem?_concat_eq_some :
    (l ++ [b])[i]? = some a ↔ l[i]? = some a ∨ i = l.length ∧ b = a := by
  constructor
  · intro h
    rcases lt_or_ge i l.length with hlt | hge
    · rw [List.getElem?_append_left hlt] at h
      exact .inl h
    · rw [List.getElem?_append_right hge, List.getElem?_singleton] at h
      split_ifs at h with hi
      exact .inr ⟨by omega, Option.some.inj h⟩
  · rintro (h | ⟨rfl, rfl⟩)
    · rw [List.getElem?_append_left (List.getElem?_eq_some_iff.1 h).1, h]
    · exact List.getElem?_concat_length

/-- What stands in a list in which one element is replaced. -/
theorem getElem?_set_eq_some (hj : j < l.length) :
    (l.set j b)[i]? = some a ↔ i = j ∧ b = a ∨ i ≠ j ∧ l[i]? = some a := by
  by_cases hi : i = j
  · subst hi
    rw [List.getElem?_set_self hj, Option.some_inj]
    simp
  · rw [List.getElem?_set_ne (Ne.symm hi)]
    simp [hi]

/-! ### Erasing by a move -/

/-- The first element with `p` is erased, and the last element of the list takes its place. -/
def swapErase (p : α → Bool) : List α → List α
  | [] => []
  | a :: l => if p a then l.getLast?.toList ++ l.dropLast else a :: swapErase p l

theorem getLast?_append_dropLast_perm (l : List α) : (l.getLast?.toList ++ l.dropLast).Perm l := by
  cases l using List.reverseRecOn with
  | nil => rfl
  | append_singleton l a =>
    rw [List.getLast?_concat, List.dropLast_concat]
    exact List.perm_append_comm

/-- Up to the order, it is the first element with `p` that is gone. -/
theorem swapErase_perm (p : α → Bool) (l : List α) : (swapErase p l).Perm (l.eraseP p) := by
  induction l with
  | nil => rfl
  | cons a l ih =>
    rw [swapErase]
    split_ifs with ha
    · rw [List.eraseP_cons_of_pos ha]
      exact getLast?_append_dropLast_perm l
    · rw [List.eraseP_cons_of_neg ha]
      exact ih.cons a

theorem swapErase_map (p : β → Bool) (g : α → β) (l : List α) :
    swapErase p (l.map g) = (swapErase (fun a => p (g a)) l).map g := by
  induction l with
  | nil => rfl
  | cons a l ih =>
    rw [List.map_cons, swapErase, swapErase]
    split_ifs with ha
    · rw [List.map_append, List.getLast?_map, List.map_dropLast]
      cases l.getLast? <;> rfl
    · rw [List.map_cons, ih]

end Lists
end PosixHw
